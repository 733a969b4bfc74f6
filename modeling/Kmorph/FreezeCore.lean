import Kmorph.NetsnapCore

/-!
Executable model of freezing and thawing filesystems, `kmorph/freeze.c`: which
mounts are to be frozen, from the text of `mountinfo`, and the calls. The
result of each freeze and thaw is an argument; the state is the paths that are
frozen.
-/

namespace Kmorph

abbrev Path := List Char

def FREEZE_MAX : ℕ := 64

/-- Whether an option starts here and ends at a comma or at the end. -/
def optionHere (opt p : List Char) : Bool :=
  opt.isPrefixOf p && (p.drop opt.length).head?.all (· = ',')

/-- `if (*p == ',') p++` -/
def skipComma (p : List Char) : List Char := if p.head? = some ',' then p.tail else p

/-- `strchr(p, ',')`, empty if there is none. -/
def nextComma (p : List Char) : List Char := p.dropWhile (· ≠ ',')

theorem nextComma_length (p : List Char) : (nextComma p).length ≤ p.length :=
  (List.dropWhile_suffix _).length_le

theorem nextComma_skipComma_length {p : List Char} (found : nextComma (skipComma p) ≠ []) :
    (nextComma (skipComma p)).length < p.length := by
  cases p with
  | nil => exact absurd rfl found
  | cons c rest =>
      have shorter := nextComma_length rest
      rw [List.length_cons]
      by_cases comma : c = ','
      · rw [skipComma, comma, List.head?_cons, if_pos rfl, List.tail_cons]
        omega
      · rw [skipComma, if_neg (by simpa using comma), nextComma,
          List.dropWhile_cons_of_pos (by simpa using comma)]
        exact Nat.lt_succ_of_le shorter

def hasOption (p opt : List Char) : Bool :=
  if optionHere opt (skipComma p) then true
  else if nextComma (skipComma p) = [] then false
  else hasOption (nextComma (skipComma p)) opt
termination_by p.length
decreasing_by exact nextComma_skipComma_length (by assumption)

/-- The byte of an escape, whose last two digits are not looked at. -/
def escapedByte (a b c : Char) : Char :=
  Char.ofNat ((((a.toNat : Int) - 48) * 64 + ((b.toNat : Int) - 48) * 8 + ((c.toNat : Int) - 48)) %
    256).toNat

def unescapeLoop : List Char → List Char
  | s :: a :: b :: c :: rest =>
      if s = '\\' ∧ '0' ≤ a ∧ a ≤ '3' then escapedByte a b c :: unescapeLoop rest
      else s :: unescapeLoop (a :: b :: c :: rest)
  | s :: rest => s :: unescapeLoop rest
  | [] => []

/-- The string `unescape` leaves, which an escaped NUL ends. -/
def unescape (s : List Char) : List Char := cString (unescapeLoop s)

/-- `%*s` -/
def skipWord (text : List Char) : Option (List Char) :=
  (scanWord text.length text).map Prod.snd

/-- What follows the first `" - "`. -/
def afterSeparator : List Char → Option (List Char)
  | [] => none
  | c :: rest =>
      if " - ".toList.isPrefixOf (c :: rest) then some (rest.drop 2) else afterSeparator rest

/-- `snprintf(line, 4096, "%.*s", (int)len, p)` -/
def mountLine (line : List Char) : List Char :=
  let n := line.length % 2 ^ 32
  if n < 2 ^ 31 then (line.take n).take 4095 else line.take 4095

/-- The device and the mount point of a line, if the filesystem is to be frozen. -/
def mountOf (line : List Char) : Option (List Char × List Char) := do
  let sep ← afterSeparator line
  let rest ← skipWord line
  let rest ← skipWord rest
  let (dev, rest) ← scanWord 15 rest
  let rest ← skipWord rest
  let (point, rest) ← scanWord 1023 rest
  let (opts, _) ← scanWord 511 rest
  let (_, rest) ← scanWord 63 sep
  let (source, rest) ← scanWord 511 rest
  let (super, _) ← scanWord 511 rest
  if !"/dev/".toList.isPrefixOf source || hasOption opts "ro".toList ||
      hasOption super "ro".toList then none
  return (dev, point)

/-- The loop over the lines, with the devices of the paths it has. -/
def collectPaths (granted : ℕ → Bool) :
    List (List Char) → List (List Char) → List Path → Int × List Path
  | [], _, paths => (0, paths)
  | line :: rest, devs, paths =>
      match mountOf (mountLine line) with
      | none => collectPaths granted rest devs paths
      | some (dev, point) =>
          if dev ∈ devs then collectPaths granted rest devs paths
          else if devs.length = FREEZE_MAX then (-E2BIG, paths)
          else if granted paths.length then
            collectPaths granted rest (devs ++ [dev]) (paths ++ [unescape point])
          else (-ENOMEM, paths)

def freezeCollect (granted : ℕ → Bool) (mountinfo : List Char) : Int × List Path :=
  collectPaths granted (textLines (cString mountinfo)) [] []

def thawAll (thaw : Path → Int) (set frozen : List Path) : List Path :=
  set.reverse.foldl
    (fun frozen path => if thaw path = 0 then frozen.filter (· ≠ path) else frozen) frozen

/-- The loop of `freeze_all`, which thaws what it froze when a path fails. -/
def freezeLoop (freeze thaw : Path → Int) (done : List Path) : List Path → List Path → Int × List Path
  | [], frozen => (0, frozen)
  | path :: rest, frozen =>
      let ret := freeze path
      if ret = -EOPNOTSUPP then freezeLoop freeze thaw (done ++ [path]) rest frozen
      else if ret ≠ 0 then (ret, thawAll thaw done frozen)
      else freezeLoop freeze thaw (done ++ [path]) rest (frozen ++ [path])

def freezeAll (freeze thaw : Path → Int) (set frozen : List Path) : Int × List Path :=
  freezeLoop freeze thaw [] set frozen

/-- A call of `struct freeze_ops` and its result. -/
inductive FreezeCall
  | freeze (path : Path) (ret : Int)
  | thaw (path : Path) (ret : Int)
deriving Repr, DecidableEq

/-- The filesystems that are frozen after a call. -/
def FreezeCall.apply (frozen : List Path) : FreezeCall → List Path
  | .freeze path ret => if ret = 0 then frozen ++ [path] else frozen
  | .thaw path ret => if ret = 0 then frozen.filter (· ≠ path) else frozen

/-- The calls `thaw_all` makes. -/
def thawCalls (thaw : Path → Int) (set : List Path) : List FreezeCall :=
  set.reverse.map fun path => .thaw path (thaw path)

/-- The calls `freeze_all` makes for the paths behind `done`, and what it returns. -/
def freezeCalls (freeze thaw : Path → Int) (done : List Path) : List Path → Int × List FreezeCall
  | [] => (0, [])
  | path :: rest =>
      let ret := freeze path
      if ret = -EOPNOTSUPP ∨ ret = 0 then
        let later := freezeCalls freeze thaw (done ++ [path]) rest
        (later.1, .freeze path ret :: later.2)
      else (ret, .freeze path ret :: thawCalls thaw done)

end Kmorph
