import Mathlib.Algebra.Group.Nat.Defs

/-!
The parts of the C library the sources lean on: error numbers, strings as the
characters before the terminating NUL, `snprintf` into a sized buffer and the
conversions of `printf`, `sscanf` and the `strto` functions that are used; with
`file_read_string` of `lib/file.c`.
-/

namespace Kmorph

def ENOENT : Int := 2
def EIO : Int := 5
def E2BIG : Int := 7
def ENOMEM : Int := 12
def EBUSY : Int := 16
def EINVAL : Int := 22
def ENOSPC : Int := 28
def ETIME : Int := 62
def EOVERFLOW : Int := 75
def EOPNOTSUPP : Int := 95
def ECONNRESET : Int := 104
def ETIMEDOUT : Int := 110
def EHOSTDOWN : Int := 112

def cString (bytes : List Char) : List Char :=
  bytes.takeWhile (· ≠ '\x00')

/-- The bytes of a string with its terminating NUL. -/
def stringBytes (text : List Char) : List UInt8 :=
  text.map (fun c => UInt8.ofNat c.toNat) ++ [0]

/-- `file_read_string` of a file that can be read. -/
def fileString (bytes : List Char) : List Char :=
  (bytes.reverse.dropWhile (· = '\n')).reverse

/-- The string `snprintf` leaves in a buffer of `size` bytes. -/
def snprintf (size : ℕ) (text : String) : String :=
  String.ofList (text.toList.take (size - 1))

def isSpace (c : Char) : Bool :=
  c = ' ' || ('\t' ≤ c && c ≤ '\r')

def decimal (digits : List Char) : ℕ :=
  digits.foldl (fun n c => n * 10 + (c.toNat - '0'.toNat)) 0

/-- `%lu`: the number and what follows it. A sign is allowed, a number too large saturates. -/
def scanUnsigned (text : List Char) : Option (ℕ × List Char) :=
  let signed := text.dropWhile isSpace
  let negative := signed.head? = some '-'
  let unsigned := if negative ∨ signed.head? = some '+' then signed.tail else signed
  let digits := unsigned.takeWhile Char.isDigit
  let n := decimal digits
  if digits = [] then none
  else
    some (if n ≥ 2 ^ 64 then 2 ^ 64 - 1 else if negative then (2 ^ 64 - n) % 2 ^ 64 else n,
      unsigned.drop digits.length)

/-- `strtoul` with base 10: the number and the text from `end` on. -/
def strtoul (text : List Char) : ℕ × List Char :=
  (scanUnsigned text).getD (0, text)

/-- `strtoll` with base 10, saturating at both ends. -/
def strtoll (text : List Char) : Int × List Char :=
  let signed := text.dropWhile isSpace
  let negative := signed.head? = some '-'
  let unsigned := if negative ∨ signed.head? = some '+' then signed.tail else signed
  let digits := unsigned.takeWhile Char.isDigit
  let n := decimal digits
  if digits = [] then (0, text)
  else
    (if negative then -(min n (2 ^ 63) : ℕ) else (min n (2 ^ 63 - 1) : ℕ),
      unsigned.drop digits.length)

/-- `%d`: the number and what follows it. A number that is no `int` is cut to one. -/
def scanSigned (text : List Char) : Option (Int × List Char) :=
  let scanned := strtoll text
  if scanned.2.length = text.length then none else some (scanned.1.bmod (2 ^ 32), scanned.2)

/-- A literal of a format. -/
def scanLiteral (literal text : List Char) : Option (List Char) :=
  if literal.isPrefixOf text then some (text.drop literal.length) else none

/-- `%s` with a field width. -/
def scanWord (width : ℕ) (text : List Char) : Option (List Char × List Char) :=
  let start := text.dropWhile isSpace
  let word := (start.takeWhile fun c => !isSpace c).take width
  if word = [] then none else some (word, start.drop word.length)

def isXdigit (c : Char) : Bool :=
  c.isDigit || ('a' ≤ c && c ≤ 'f') || ('A' ≤ c && c ≤ 'F')

def hexDigitValue (c : Char) : ℕ :=
  if c.isDigit then c.toNat - '0'.toNat
  else if 'a' ≤ c then c.toNat - 'a'.toNat + 10
  else c.toNat - 'A'.toNat + 10

def hexadecimal (digits : List Char) : ℕ :=
  digits.foldl (fun n c => n * 16 + hexDigitValue c) 0

def skipHexPrefix : List Char → List Char
  | '0' :: 'x' :: rest | '0' :: 'X' :: rest => rest
  | text => text

/-- `%lx`: the number and what follows it. A sign and `0x` are allowed, a number too large
saturates. -/
def scanHex (text : List Char) : Option (ℕ × List Char) :=
  let signed := text.dropWhile isSpace
  let negative := signed.head? = some '-'
  let unsigned := if negative ∨ signed.head? = some '+' then signed.tail else signed
  let body := skipHexPrefix unsigned
  let digits := body.takeWhile isXdigit
  let n := hexadecimal digits
  if digits = [] then none
  else
    some (if n ≥ 2 ^ 64 then 2 ^ 64 - 1 else if negative then (2 ^ 64 - n) % 2 ^ 64 else n,
      body.drop digits.length)

/-- `strtoull` with base 16: the number and the text from `end` on. Of an `0x` that no digit
follows it reads the `0`. -/
def strtoullHex (text : List Char) : ℕ × List Char :=
  let signed := text.dropWhile isSpace
  let unsigned := if signed.head? = some '-' ∨ signed.head? = some '+' then signed.tail else signed
  (scanHex text).getD (0, if unsigned.head? = some '0' then unsigned.tail else text)

/-- `%u` and `%lu` -/
def formatUnsigned (n : ℕ) : List Char := Nat.toDigits 10 n

/-- `%lld` -/
def formatSigned (n : Int) : List Char :=
  if n < 0 then '-' :: formatUnsigned n.natAbs else formatUnsigned n.natAbs

/-- `%02x` of a byte -/
def formatByte (b : UInt8) : List Char :=
  [Nat.digitChar (b.toNat / 16), Nat.digitChar (b.toNat % 16)]

end Kmorph
