import Kmorph.Libc
import Mathlib.Algebra.Group.Int.Defs
import Mathlib.Data.List.TakeWhile

/-!
What the conversions of `sscanf` make of text that `printf` wrote: each reads its
own chunk and leaves the rest, if the rest starts with a character that ends the
chunk.
-/

namespace Kmorph

/-- The text is at its end or starts with a character outside the class. -/
def Stops (inside : Char → Bool) (rest : List Char) : Prop := ∀ c ∈ rest.head?, inside c = false

variable {inside wider : Char → Bool} {c : Char} {chunk rest digits : List Char}

theorem stops_nil (inside : Char → Bool) : Stops inside [] := by simp [Stops]

theorem stops_cons (outside : inside c = false) : Stops inside (c :: rest) := by
  simpa [Stops] using outside

theorem Stops.mono (stops : Stops wider rest) (narrower : ∀ c, inside c = true → wider c = true) :
    Stops inside rest := by
  intro c first
  have := stops c first
  cases inner : inside c with
  | false => rfl
  | true => simp [narrower c inner] at this

theorem takeWhile_chunk (all : ∀ c ∈ chunk, inside c = true) (stops : Stops inside rest) :
    (chunk ++ rest).takeWhile inside = chunk := by
  rw [List.takeWhile_append_of_pos all]
  cases rest with
  | nil => simp
  | cons c rest => simp [stops c (by simp)]

theorem dropWhile_stops (text : List Char) : Stops inside (text.dropWhile inside) := by
  induction text with
  | nil => exact stops_nil _
  | cons c others ih =>
      rw [List.dropWhile_cons]
      split
      · exact ih
      · rename_i outside
        exact stops_cons (by simpa using outside)

theorem dropWhile_of_stops (stops : Stops inside rest) : rest.dropWhile inside = rest := by
  cases rest with
  | nil => simp
  | cons c rest => simp [stops c (by simp)]

theorem fileString_line {text : List Char} (plain : '\n' ∉ text) :
    fileString (text ++ ['\n']) = text := by
  have stops : Stops (· = '\n') text.reverse := by
    intro c first
    have member : c ∈ text := List.mem_reverse.mp (List.mem_of_mem_head? first)
    simp only [decide_eq_false_iff_not]
    rintro rfl
    exact plain member
  simp [fileString, dropWhile_of_stops stops]

theorem fileString_newlines (text : List Char) : ∃ n, text = fileString text ++ List.replicate n '\n' := by
  refine ⟨(text.reverse.takeWhile (· = '\n')).length, ?_⟩
  have newlines : text.reverse.takeWhile (· = '\n') =
      List.replicate (text.reverse.takeWhile (· = '\n')).length '\n' := by
    apply List.eq_replicate_of_mem
    intro c member
    simpa using List.mem_takeWhile_imp member
  rw [fileString, ← List.reverse_replicate, ← newlines, ← List.reverse_append,
    List.takeWhile_append_dropWhile, List.reverse_reverse]

theorem splitOn_newlines (text : List Char) (n : ℕ) :
    (text ++ List.replicate n '\n').splitOn '\n' = text.splitOn '\n' ++ List.replicate n [] := by
  induction n with
  | zero => rw [List.replicate_zero, List.replicate_zero, List.append_nil, List.append_nil]
  | succ n ih =>
      rw [List.replicate_succ', ← List.append_assoc, List.splitOn_append_cons_self, ih, List.splitOn_nil,
        List.replicate_succ', List.append_assoc]

theorem cString_of_plain {text : List Char} (noNul : '\x00' ∉ text) : cString text = text := by
  refine List.takeWhile_eq_self_iff.mpr ?_
  intro c member
  simp only [ne_eq, decide_not, Bool.not_eq_eq_eq_not, Bool.not_true, decide_eq_false_iff_not]
  rintro rfl
  exact noNul member

theorem isXdigit_iff : isXdigit c = true ↔
    48 ≤ c.toNat ∧ c.toNat ≤ 57 ∨ 97 ≤ c.toNat ∧ c.toNat ≤ 102 ∨ 65 ≤ c.toNat ∧ c.toNat ≤ 70 := by
  simp only [isXdigit, Char.isDigit, Bool.or_eq_true, Bool.and_eq_true, decide_eq_true_eq,
    Char.le_def, UInt32.le_iff_toNat_le, or_assoc]
  exact Iff.rfl

theorem isXdigit_of_isDigit (digit : c.isDigit = true) : isXdigit c = true := by
  simp [isXdigit, digit]

/-- A digit is not a space, a sign or the `x` of `0x`. -/
theorem isXdigit_plain (digit : isXdigit c = true) :
    isSpace c = false ∧ c ≠ '-' ∧ c ≠ '+' ∧ c ≠ 'x' ∧ c ≠ 'X' := by
  rw [isXdigit_iff] at digit
  have minus : '-'.toNat = 45 := rfl
  have plus : '+'.toNat = 43 := rfl
  have lower : 'x'.toNat = 120 := rfl
  have upper : 'X'.toNat = 88 := rfl
  refine ⟨?_, ?_, ?_, ?_, ?_⟩
  · simp only [isSpace, Bool.or_eq_false_iff, decide_eq_false_iff_not, Bool.and_eq_false_iff,
      Char.le_def, UInt32.le_iff_toNat_le]
    have space : ' '.toNat = 32 := rfl
    have ret : '\r'.val.toNat = 13 := rfl
    have code : c.val.toNat = c.toNat := rfl
    refine ⟨?_, by omega⟩
    rintro rfl
    omega
  all_goals
    rintro rfl
    omega

theorem start_of_digits (rest : List Char) (found : digits ≠ [])
    (all : ∀ c ∈ digits, isXdigit c = true) :
    (digits ++ rest).dropWhile isSpace = digits ++ rest ∧
      (digits ++ rest).head? ≠ some '-' ∧ (digits ++ rest).head? ≠ some '+' := by
  obtain ⟨first, others, rfl⟩ := List.exists_cons_of_ne_nil found
  obtain ⟨notSpace, notMinus, notPlus, -, -⟩ := isXdigit_plain (all first (by simp))
  exact ⟨dropWhile_of_stops (stops_cons notSpace), by simpa using notMinus, by simpa using notPlus⟩

theorem scanUnsigned_digits (found : digits ≠ []) (all : ∀ c ∈ digits, c.isDigit = true)
    (stops : Stops Char.isDigit rest) (fits : decimal digits < 2 ^ 64) :
    scanUnsigned (digits ++ rest) = some (decimal digits, rest) := by
  obtain ⟨start, notMinus, notPlus⟩ :=
    start_of_digits rest found fun c member => isXdigit_of_isDigit (all c member)
  have large : ¬ decimal digits ≥ 2 ^ 64 := by omega
  simp only [scanUnsigned, start, notMinus, notPlus, or_self, if_false, takeWhile_chunk all stops,
    found, large, List.drop_left]

theorem strtoll_digits (found : digits ≠ []) (all : ∀ c ∈ digits, c.isDigit = true)
    (stops : Stops Char.isDigit rest) (fits : decimal digits < 2 ^ 63) :
    strtoll (digits ++ rest) = ((decimal digits : Int), rest) := by
  obtain ⟨start, notMinus, notPlus⟩ :=
    start_of_digits rest found fun c member => isXdigit_of_isDigit (all c member)
  have small : min (decimal digits) (2 ^ 63 - 1) = decimal digits := by omega
  simp only [strtoll, start, notMinus, notPlus, or_self, if_false, takeWhile_chunk all stops,
    found, small, List.drop_left]

theorem decimal_formatUnsigned (n : ℕ) : decimal (formatUnsigned n) = n := by
  have same : decimal (formatUnsigned n) = Nat.ofDigitChars 10 (Nat.toDigits 10 n) 0 := by
    simp only [formatUnsigned, decimal, Nat.ofDigitChars_eq_foldl, Nat.mul_comm]
  rw [same, Nat.ofDigitChars_ten_toDigits]

theorem formatUnsigned_ne_nil (n : ℕ) : formatUnsigned n ≠ [] := Nat.toDigits_ne_nil

theorem isDigit_formatUnsigned (n : ℕ) : ∀ c ∈ formatUnsigned n, c.isDigit = true :=
  fun _ member => Nat.isDigit_of_mem_toDigits (by decide) (by decide) member

theorem length_formatUnsigned {n k : ℕ} (fits : n < 10 ^ (k + 1)) :
    (formatUnsigned n).length ≤ k + 1 :=
  (Nat.length_toDigits_le_iff (by decide) (Nat.succ_pos k)).mpr fits

theorem scanUnsigned_format {n : ℕ} (fits : n < 2 ^ 64) (stops : Stops Char.isDigit rest) :
    scanUnsigned (formatUnsigned n ++ rest) = some (n, rest) := by
  have value := decimal_formatUnsigned n
  rw [scanUnsigned_digits (formatUnsigned_ne_nil n) (isDigit_formatUnsigned n) stops
    (by rwa [value]), value]

theorem strtoul_format {n : ℕ} (fits : n < 2 ^ 64) : strtoul (formatUnsigned n) = (n, []) := by
  have scanned := scanUnsigned_format fits (stops_nil Char.isDigit)
  rw [List.append_nil] at scanned
  rw [strtoul, scanned]
  rfl

theorem strtoll_signed {n : Int} (low : -2 ^ 63 ≤ n) (high : n < 2 ^ 63) (stops : Stops Char.isDigit rest) :
    strtoll (formatSigned n ++ rest) = (n, rest) := by
  have value := decimal_formatUnsigned n.natAbs
  have found := formatUnsigned_ne_nil n.natAbs
  have digits := takeWhile_chunk (isDigit_formatUnsigned n.natAbs) stops
  rw [formatSigned]
  split
  · rename_i negative
    have start : ('-' :: formatUnsigned n.natAbs ++ rest).dropWhile isSpace =
        '-' :: (formatUnsigned n.natAbs ++ rest) := dropWhile_of_stops (stops_cons (by decide))
    have small : min n.natAbs (2 ^ 63) = n.natAbs := by omega
    simp only [strtoll, start, List.head?_cons, true_or, if_true, List.tail_cons, digits, found, if_false,
      value, small, List.drop_left, Prod.mk.injEq, and_true]
    omega
  · rw [strtoll_digits found (isDigit_formatUnsigned n.natAbs) stops (by rw [value]; omega), value,
      Int.natAbs_of_nonneg (by omega)]

theorem strtoll_format {n : Int} (positive : 0 ≤ n) (fits : n < 2 ^ 63) :
    strtoll (formatSigned n) = (n, []) := by
  have scanned := strtoll_signed (by omega) fits (stops_nil Char.isDigit)
  rwa [List.append_nil] at scanned

theorem formatSigned_ne_nil (n : Int) : formatSigned n ≠ [] := by
  rw [formatSigned]
  split
  · exact List.cons_ne_nil _ _
  · exact formatUnsigned_ne_nil _

theorem scanSigned_format {n : Int} (low : -2 ^ 31 ≤ n) (high : n < 2 ^ 31)
    (stops : Stops Char.isDigit rest) : scanSigned (formatSigned n ++ rest) = some (n, rest) := by
  have longer := List.length_pos_iff.mpr (formatSigned_ne_nil n)
  have shorter : ¬ rest.length = (formatSigned n ++ rest).length := by
    rw [List.length_append]
    omega
  simp only [scanSigned]
  rw [strtoll_signed (by omega) (by omega) stops, if_neg shorter, Int.bmod_eq_of_le (by omega) (by omega)]

theorem scanLiteral_append (literal rest : List Char) : scanLiteral literal (literal ++ rest) = some rest := by
  rw [scanLiteral, if_pos (List.isPrefixOf_iff_prefix.mpr (List.prefix_append _ _)), List.drop_left]

theorem skipHexPrefix_digits (found : digits ≠ []) (all : ∀ c ∈ digits, isXdigit c = true)
    (stops : Stops (fun c => c = 'x' || c = 'X') rest) :
    skipHexPrefix (digits ++ rest) = digits ++ rest := by
  obtain ⟨first, others, rfl⟩ := List.exists_cons_of_ne_nil found
  have second : ∀ c ∈ (others ++ rest).head?, c ≠ 'x' ∧ c ≠ 'X' := by
    intro c head
    cases others with
    | nil => simpa using stops c head
    | cons next others =>
        simp only [List.cons_append, List.head?_cons, Option.mem_def, Option.some.injEq] at head
        subst head
        have plain := isXdigit_plain (all next (by simp))
        exact ⟨plain.2.2.2.1, plain.2.2.2.2⟩
  rw [List.cons_append]
  generalize others ++ rest = text at second
  unfold skipHexPrefix
  split
  · rename_i same
    simp only [List.cons.injEq] at same
    exact absurd rfl (second 'x' (by simp [same.2])).1
  · rename_i same
    simp only [List.cons.injEq] at same
    exact absurd rfl (second 'X' (by simp [same.2])).2
  · rfl

theorem scanHex_saturates (found : digits ≠ []) (all : ∀ c ∈ digits, isXdigit c = true)
    (stops : Stops isXdigit rest) (noPrefix : Stops (fun c => c = 'x' || c = 'X') rest) :
    scanHex (digits ++ rest) = some (min (hexadecimal digits) (2 ^ 64 - 1), rest) := by
  obtain ⟨start, notMinus, notPlus⟩ := start_of_digits rest found all
  have value : (if hexadecimal digits ≥ 2 ^ 64 then 2 ^ 64 - 1 else hexadecimal digits) =
      min (hexadecimal digits) (2 ^ 64 - 1) := by
    split
    · rw [Nat.min_eq_right (by omega)]
    · rw [Nat.min_eq_left (by omega)]
  simp only [scanHex, start, notMinus, notPlus, or_self, if_false,
    skipHexPrefix_digits found all noPrefix, takeWhile_chunk all stops, found, value, List.drop_left]

theorem scanHex_digits (found : digits ≠ []) (all : ∀ c ∈ digits, isXdigit c = true)
    (stops : Stops isXdigit rest) (noPrefix : Stops (fun c => c = 'x' || c = 'X') rest)
    (fits : hexadecimal digits < 2 ^ 64) :
    scanHex (digits ++ rest) = some (hexadecimal digits, rest) := by
  rw [scanHex_saturates found all stops noPrefix, Nat.min_eq_left (by omega)]

theorem isXdigit_digitChar {n : ℕ} (digit : n < 16) : isXdigit (Nat.digitChar n) = true := by
  have all : ∀ n : Fin 16, isXdigit (Nat.digitChar n) = true := by decide
  exact all ⟨n, digit⟩

theorem hexDigitValue_digitChar {n : ℕ} (digit : n < 16) : hexDigitValue (Nat.digitChar n) = n := by
  have all : ∀ n : Fin 16, hexDigitValue (Nat.digitChar n) = n := by decide
  exact all ⟨n, digit⟩

theorem isXdigit_formatByte (b : UInt8) : ∀ c ∈ formatByte b, isXdigit c = true := by
  have := b.toNat_lt
  intro c member
  simp only [formatByte, List.mem_cons, List.not_mem_nil, or_false] at member
  rcases member with rfl | rfl
  · exact isXdigit_digitChar (by omega)
  · exact isXdigit_digitChar (by omega)

theorem hexadecimal_formatByte (b : UInt8) : hexadecimal (formatByte b) = b.toNat := by
  have := b.toNat_lt
  simp only [hexadecimal, formatByte, List.foldl_cons, List.foldl_nil]
  rw [hexDigitValue_digitChar (by omega), hexDigitValue_digitChar (by omega)]
  omega

theorem scanHex_formatByte (b : UInt8) (stops : Stops isXdigit rest)
    (noPrefix : Stops (fun c => c = 'x' || c = 'X') rest) :
    scanHex (formatByte b ++ rest) = some (b.toNat, rest) := by
  have := b.toNat_lt
  have value := hexadecimal_formatByte b
  rw [scanHex_digits (by simp [formatByte]) (isXdigit_formatByte b) stops noPrefix
    (by rw [value]; omega), value]

/-- Text that `%s` reads as one word. -/
structure IsWord (width : ℕ) (word : List Char) : Prop where
  found : word ≠ []
  short : word.length ≤ width
  plain : ∀ c ∈ word, isSpace c = false ∧ c ≠ '\x00'

theorem isWord_iff_all {width : ℕ} {word : List Char} :
    IsWord width word ↔ word ≠ [] ∧ word.length ≤ width ∧
      (word.all fun c => !isSpace c && c ≠ '\x00') = true := by
  simp only [List.all_eq_true, Bool.and_eq_true, Bool.not_eq_true', decide_eq_true_eq]
  exact ⟨fun ⟨found, short, plain⟩ => ⟨found, short, plain⟩,
    fun ⟨found, short, plain⟩ => ⟨found, short, plain⟩⟩

instance (width : ℕ) (word : List Char) : Decidable (IsWord width word) :=
  decidable_of_iff _ isWord_iff_all.symm

theorem scanWord_word {width : ℕ} {word : List Char} (isWord : IsWord width word)
    (stops : Stops (fun c => !isSpace c) rest) :
    scanWord width (word ++ rest) = some (word, rest) := by
  obtain ⟨first, others, rfl⟩ := List.exists_cons_of_ne_nil isWord.found
  have start : (first :: others ++ rest).dropWhile isSpace = first :: others ++ rest :=
    dropWhile_of_stops (stops_cons (isWord.plain first (by simp)).1)
  have all : ∀ c ∈ first :: others, (!isSpace c) = true :=
    fun c member => by simp [(isWord.plain c member).1]
  simp only [scanWord, start, takeWhile_chunk all stops, List.take_of_length_le isWord.short,
    isWord.found, if_false, List.drop_left]

theorem scanWord_isWord {width : ℕ} {text word : List Char} (noNul : '\x00' ∉ text)
    (scanned : scanWord width text = some (word, rest)) : IsWord width word ∧ '\x00' ∉ rest := by
  simp only [scanWord] at scanned
  split at scanned
  · simp at scanned
  · rename_i found
    obtain ⟨rfl, rfl⟩ := Prod.mk.inj (Option.some.inj scanned)
    have fromText : ∀ c ∈ text.dropWhile isSpace, c ∈ text :=
      fun c member => (List.dropWhile_suffix _).mem member
    refine ⟨⟨found, List.length_take_le .., ?_⟩, ?_⟩
    · intro c member
      have taken := List.mem_of_mem_take member
      refine ⟨by simpa using List.all_eq_true.mp List.all_takeWhile c taken, ?_⟩
      rintro rfl
      exact noNul (fromText _ ((List.takeWhile_prefix _).mem taken))
    · intro member
      exact noNul (fromText _ (List.mem_of_mem_drop member))

@[simp] theorem scanUnsigned_space (text : List Char) :
    scanUnsigned (' ' :: text) = scanUnsigned text := rfl

@[simp] theorem scanHex_space (text : List Char) : scanHex (' ' :: text) = scanHex text := rfl

@[simp] theorem scanWord_space (width : ℕ) (text : List Char) :
    scanWord width (' ' :: text) = scanWord width text := rfl

end Kmorph
