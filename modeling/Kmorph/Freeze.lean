import Kmorph.FreezeCore
import Kmorph.Netsnap

/-!
Which mounts `freeze_collect` takes from `mountinfo`. `Mount` is what the kernel
shows of one, `mountinfo` its text; the white space that the kernel leaves as it
is splits a field into words, and the fields behind it are read out of place.
-/

namespace Kmorph

/-- The characters the kernel writes as three octal digits. -/
def MANGLED : List Char := [' ', '\t', '\n', '\\', '#']

def octal (n : ℕ) : List Char :=
  [Nat.digitChar (n / 64), Nat.digitChar (n / 8 % 8), Nat.digitChar (n % 8)]

def mangle (field : List Char) : List Char :=
  field.flatMap fun c => if c ∈ MANGLED then '\\' :: octal c.toNat else [c]

def Freezable (source : List Char) (opts super : List (List Char)) : Prop :=
  "/dev/".toList <+: source ∧ "ro".toList ∉ opts ∧ "ro".toList ∉ super

instance (source : List Char) (opts super : List (List Char)) : Decidable (Freezable source opts super) :=
  inferInstanceAs (Decidable (_ ∧ _ ∧ _))

structure Mount where
  id : ℕ
  parent : ℕ
  device : ℕ × ℕ
  root : List Char
  point : Path
  opts : List (List Char)
  optional : List (List Char)
  fstype : List Char
  source : List Char
  super : List (List Char)
deriving Repr, DecidableEq

def formatDevice (device : ℕ × ℕ) : List Char :=
  formatUnsigned device.1 ++ ':' :: formatUnsigned device.2

def formatOptions (opts : List (List Char)) : List Char :=
  [','].intercalate (opts.map mangle)

/-- Words with a space after each. -/
def spaced (words : List (List Char)) (rest : List Char) : List Char :=
  words.foldr (fun word text => word ++ ' ' :: text) rest

namespace Mount

/-- What stands before the separator. -/
def words (m : Mount) : List (List Char) :=
  [formatUnsigned m.id, formatUnsigned m.parent, formatDevice m.device, mangle m.root,
    mangle m.point, formatOptions m.opts] ++ m.optional.map mangle

/-- What stands behind the separator. -/
def back (m : Mount) : List Char :=
  spaced [mangle m.fstype, mangle m.source] (formatOptions m.super)

/-- What stands behind the device. -/
def front (m : Mount) : List Char :=
  spaced ([mangle m.root, mangle m.point, formatOptions m.opts] ++ m.optional.map mangle ++
    ["-".toList]) m.back

def line (m : Mount) : List Char :=
  spaced (m.words ++ ["-".toList, mangle m.fstype, mangle m.source]) (formatOptions m.super)

def fields (m : Mount) : List (List Char) :=
  m.root :: m.point :: m.fstype :: m.source :: m.opts ++ m.optional ++ m.super

/-- A line the kernel writes and whose fields fit the buffers. -/
structure WellFormed (m : Mount) : Prop where
  text : ∀ field ∈ m.fields, '\x00' ∉ field
  named : m.root ≠ [] ∧ m.point ≠ [] ∧ m.fstype ≠ [] ∧ ∀ tag ∈ m.optional, tag ≠ []
  separated : ∀ word ∈ m.words, word ≠ "-".toList
  opts : (m.opts.head?.any (· ≠ [])) ∧ ∀ opt ∈ m.opts, ',' ∉ opt
  super : (m.super.head?.any (· ≠ [])) ∧ ∀ opt ∈ m.super, ',' ∉ opt
  buffers : (formatDevice m.device).length < 16 ∧ (mangle m.point).length < 1024 ∧
    (formatOptions m.opts).length < 512 ∧ (mangle m.fstype).length < 64 ∧
    (mangle m.source).length < 512 ∧ (formatOptions m.super).length < 512
  short : m.line.length < 4096

/-- No vertical tab, form feed or carriage return in the fields up to the options, nor in those
behind the separator. -/
def Plain (m : Mount) : Prop :=
  ∀ field ∈ m.root :: m.point :: m.fstype :: m.source :: m.opts ++ m.super,
    '\x0b' ∉ field ∧ '\x0c' ∉ field ∧ '\r' ∉ field

/-- A filesystem on a block device that can be written through this mount. -/
def Writable (m : Mount) : Prop := Freezable m.source m.opts m.super

instance (m : Mount) : Decidable m.Writable := inferInstanceAs (Decidable (Freezable _ _ _))

end Mount

def mountinfo (mounts : List Mount) : List Char :=
  mounts.flatMap fun m => m.line ++ ['\n']

/-- No writable mount before is of the same device. -/
def FirstWritable (before : List Mount) (m : Mount) : Prop :=
  m.Writable ∧ ∀ other ∈ before, other.Writable → other.device ≠ m.device

instance (before : List Mount) (m : Mount) : Decidable (FirstWritable before m) :=
  inferInstanceAs (Decidable (_ ∧ ∀ other ∈ before, _))

def toFreezeFrom (before : List Mount) : List Mount → List Mount
  | [] => []
  | m :: rest =>
      if FirstWritable before m then m :: toFreezeFrom (before ++ [m]) rest
      else toFreezeFrom (before ++ [m]) rest

/-- For each device the first of its mounts that is writable. -/
def toFreeze (mounts : List Mount) : List Mount := toFreezeFrom [] mounts

/-- For each device the first path of a mount of it. -/
def firstOf (taken : List (ℕ × ℕ)) : List ((ℕ × ℕ) × Option Path) → List ((ℕ × ℕ) × Path)
  | [] => []
  | (_, none) :: rest => firstOf taken rest
  | (device, some path) :: rest =>
      if device ∈ taken then firstOf taken rest
      else (device, path) :: firstOf (taken ++ [device]) rest

def FrozenOnce (mounts : List Mount) : Prop :=
  let result := freezeCollect (fun _ => true) (mountinfo mounts)
  if (toFreeze mounts).length ≤ FREEZE_MAX then result = (0, (toFreeze mounts).map Mount.point)
  else result.1 = -E2BIG

/-- The words of a text, which white space separates. -/
def wordsOf (text : List Char) : List (List Char) := (text.splitOnP isSpace).filter (· ≠ [])

/-- The next word, up to a width; what is longer is read on with the next. -/
def nextWord (width : ℕ) : List (List Char) → Option (List Char × List (List Char))
  | [] => none
  | word :: rest =>
      some (word.take width, if word.length ≤ width then rest else word.drop width :: rest)

/-- The path of a mount as its line shows it, with the words that stand in the places of the mount
point, the options and the source; none if they do not call for a freeze. -/
def Mount.seen (m : Mount) : Option Path := do
  let (point, rest) ← nextWord 1023 (wordsOf m.front).tail
  let (opts, _) ← nextWord 511 rest
  let (_, rest) ← nextWord 63 (wordsOf m.back)
  let (source, rest) ← nextWord 511 rest
  let (super, _) ← nextWord 511 rest
  if Freezable source (opts.splitOn ',') (super.splitOn ',') then some (unescape point) else none

/-- What is seen of the mounts makes the same paths to freeze as the mounts themselves do, or
likewise more than can be kept. -/
def SeenRight (mounts : List Mount) : Prop :=
  let seen := firstOf [] (mounts.map fun m => (m.device, m.seen))
  if (toFreeze mounts).length ≤ FREEZE_MAX then
    seen.map Prod.snd = (toFreeze mounts).map Mount.point
  else FREEZE_MAX < seen.length

section Words

variable {word rest : List Char}

theorem wordsOf_append_space {c : Char} (space : isSpace c = true) (first rest : List Char) :
    wordsOf (first ++ c :: rest) = wordsOf first ++ wordsOf rest := by
  rw [wordsOf, List.splitOnP_append_cons first rest space, List.filter_append]
  rfl

theorem wordsOf_space {c : Char} (space : isSpace c = true) (rest : List Char) :
    wordsOf (c :: rest) = wordsOf rest := by
  simpa [wordsOf] using wordsOf_append_space space [] rest

theorem wordsOf_single (found : word ≠ []) (plain : ∀ c ∈ word, isSpace c = false) :
    wordsOf word = [word] := by
  rw [wordsOf, List.splitOnP_eq_singleton plain]
  simp [found]

theorem wordsOf_word (found : word ≠ []) (plain : ∀ c ∈ word, isSpace c = false)
    (stops : Stops (fun c => !isSpace c) rest) : wordsOf (word ++ rest) = word :: wordsOf rest := by
  cases rest with
  | nil =>
      rw [List.append_nil, wordsOf_single found plain]
      rfl
  | cons c rest =>
      have space : isSpace c = true := by simpa using stops c rfl
      rw [wordsOf_append_space space, wordsOf_single found plain, wordsOf_space space,
        List.singleton_append]

theorem wordsOf_dropWhile (text : List Char) : wordsOf (text.dropWhile isSpace) = wordsOf text := by
  induction text with
  | nil => rfl
  | cons c text ih =>
      by_cases space : isSpace c = true
      · rw [List.dropWhile_cons_of_pos space, ih, wordsOf_space space]
      · rw [List.dropWhile_cons_of_neg space]

theorem wordsOf_spaced {words : List (List Char)}
    (isWords : ∀ word ∈ words, word ≠ [] ∧ ∀ c ∈ word, isSpace c = false) (rest : List Char) :
    wordsOf (spaced words rest) = words ++ wordsOf rest := by
  induction words with
  | nil => rfl
  | cons word words ih =>
      obtain ⟨found, plain⟩ := isWords word (by simp)
      show wordsOf (word ++ ' ' :: spaced words rest) = _
      rw [wordsOf_append_space rfl, wordsOf_single found plain,
        ih fun other member => isWords other (by simp [member])]
      rfl

theorem nextWord_short {width : ℕ} (short : word.length ≤ width) (rest : List (List Char)) :
    nextWord width (word :: rest) = some (word, rest) := by
  rw [nextWord, List.take_of_length_le short, if_pos short]

theorem mem_splitOnP {apart : Char → Bool} {text : List Char} (member : word ∈ text.splitOnP apart) :
    (∀ c ∈ word, apart c = false) ∧ word.length ≤ text.length := by
  induction text generalizing word with
  | nil =>
      obtain rfl := List.mem_singleton.mp (by simpa using member)
      simp
  | cons c text ih =>
      rw [List.splitOnP_cons_eq_if_modifyHead] at member
      split at member
      · rcases List.mem_cons.mp member with rfl | later
        · simp
        · exact ⟨(ih later).1, Nat.le_succ_of_le (ih later).2⟩
      · rename_i inside
        obtain ⟨first, others, split⟩ := List.exists_cons_of_ne_nil (List.splitOnP_ne_nil apart text)
        rw [split, List.modifyHead_cons] at member
        rcases List.mem_cons.mp member with rfl | later
        · obtain ⟨plain, short⟩ := ih (show first ∈ text.splitOnP apart by simp [split])
          exact ⟨List.forall_mem_cons.mpr ⟨by simpa using inside, plain⟩, Nat.succ_le_succ short⟩
        · obtain ⟨plain, short⟩ := ih (show word ∈ text.splitOnP apart by simp [split, later])
          exact ⟨plain, Nat.le_succ_of_le short⟩

theorem wordsOf_length {text : List Char} (member : word ∈ wordsOf text) :
    word.length ≤ text.length :=
  (mem_splitOnP (List.mem_of_mem_filter member)).2

theorem scanWord_run {width : ℕ} {run after : List Char} (found : run ≠ []) (positive : 0 < width)
    (plain : ∀ c ∈ run, isSpace c = false) (stops : Stops (fun c => !isSpace c) after) :
    (scanWord width (run ++ after)).map (Prod.map id wordsOf) =
      nextWord width (wordsOf (run ++ after)) := by
  obtain ⟨first, others, rfl⟩ := List.exists_cons_of_ne_nil found
  have start : (first :: others ++ after).dropWhile isSpace = first :: others ++ after :=
    dropWhile_of_stops (stops_cons (plain first (by simp)))
  have inside : ∀ c ∈ first :: others, (!isSpace c) = true := fun c member => by simp [plain c member]
  have taken : (first :: others).take width ≠ [] := by
    simp [List.take_eq_nil_iff, Nat.pos_iff_ne_zero.mp positive]
  simp only [scanWord, start, takeWhile_chunk inside stops, taken, if_false, wordsOf_word found plain stops,
    nextWord, Option.map_some, Prod.map, id]
  by_cases short : (first :: others).length ≤ width
  · rw [List.take_of_length_le short, List.drop_left, if_pos short]
  · have length : ((first :: others).take width).length = width := by
      rw [List.length_take]
      omega
    have more : (first :: others).drop width ≠ [] := by
      rw [ne_eq, List.drop_eq_nil_iff]
      exact short
    rw [length, if_neg short, List.drop_append_of_le_length (by omega),
      wordsOf_word more (fun c member => plain c (List.mem_of_mem_drop member)) stops]

/-- Scanning a text takes its words one by one. -/
theorem scanWord_words {width : ℕ} (positive : 0 < width) (text : List Char) :
    (scanWord width text).map (Prod.map id wordsOf) = nextWord width (wordsOf text) := by
  rw [← scanWord_dropWhile, ← wordsOf_dropWhile text]
  have begins : Stops isSpace (text.dropWhile isSpace) := by
    intro c first
    have other := List.head?_dropWhile_not isSpace text
    rw [Option.mem_def.mp first] at other
    exact other
  generalize text.dropWhile isSpace = start at begins ⊢
  cases start with
  | nil => simp [scanWord, wordsOf, nextWord]
  | cons first rest =>
      have plain : ∀ c ∈ (first :: rest).takeWhile fun c => !isSpace c, isSpace c = false := by
        intro c member
        simpa using List.all_eq_true.mp List.all_takeWhile c member
      have found : (first :: rest).takeWhile (fun c => !isSpace c) ≠ [] := by
        simp [begins first rfl]
      have stops : Stops (fun c => !isSpace c) ((first :: rest).dropWhile fun c => !isSpace c) := by
        intro c next
        have other := List.head?_dropWhile_not (fun c => !isSpace c) (first :: rest)
        rw [Option.mem_def.mp next] at other
        exact other
      have scanned := scanWord_run found positive plain stops
      rwa [List.takeWhile_append_dropWhile] at scanned

theorem scanWord_cases {width : ℕ} (positive : 0 < width) (text : List Char) :
    scanWord width text = none ∧ nextWord width (wordsOf text) = none ∨
      ∃ word rest, scanWord width text = some (word, rest) ∧
        nextWord width (wordsOf text) = some (word, wordsOf rest) := by
  have scanned := scanWord_words positive text
  cases found : scanWord width text with
  | none => exact .inl ⟨rfl, by simpa [found] using scanned.symm⟩
  | some result => exact .inr ⟨result.1, result.2, rfl, by simpa [found, Prod.map] using scanned.symm⟩

/-- What goes on alike with a word and the rest of the text, or of its words, goes on alike. -/
theorem scanWord_bind {α β γ : Type} {width : ℕ} (positive : 0 < width) (text : List Char)
    {scan : List Char × List Char → Option α} {next : List Char × List (List Char) → Option β}
    {f : α → γ} {g : β → γ}
    (alike : ∀ word rest, (scan (word, rest)).map f = (next (word, wordsOf rest)).map g) :
    ((scanWord width text).bind scan).map f = ((nextWord width (wordsOf text)).bind next).map g := by
  rcases scanWord_cases positive text with ⟨unread, none⟩ | ⟨word, rest, read, some⟩
  · rw [unread, none]
    rfl
  · rw [read, some]
    exact alike word rest

theorem skipWord_cases (text : List Char) :
    skipWord text = none ∧ wordsOf text = [] ∨
      ∃ rest, skipWord text = some rest ∧ wordsOf rest = (wordsOf text).tail := by
  cases text with
  | nil => exact .inl ⟨rfl, rfl⟩
  | cons c text =>
      rcases scanWord_cases (show 0 < (c :: text).length by simp) (c :: text) with
        ⟨unscanned, none⟩ | ⟨word, rest, scanned, some⟩
      · refine .inl ⟨by rw [skipWord, unscanned]; rfl, ?_⟩
        cases words : wordsOf (c :: text) with
        | nil => rfl
        | cons word rest => simp [words, nextWord] at none
      · refine .inr ⟨rest, by rw [skipWord, scanned]; rfl, ?_⟩
        cases words : wordsOf (c :: text) with
        | nil => simp [words, nextWord] at some
        | cons whole others =>
            -- No word is longer than the text it stands in.
            have short : whole.length ≤ (c :: text).length := wordsOf_length (words ▸ by simp)
            rw [words, nextWord, if_pos short] at some
            simpa using (Prod.mk.inj (Option.some.inj some)).2.symm

end Words

section Mangle

theorem octal_escape {c : Char} (mangled : c ∈ MANGLED) :
    ∃ a b d, octal c.toNat = [a, b, d] ∧ '0' ≤ a ∧ a ≤ '3' ∧ escapedByte a b d = c ∧
      ∀ digit ∈ octal c.toNat, isSpace digit = false ∧ digit ≠ '\x00' ∧ digit ≠ ',' := by
  simp only [MANGLED, List.mem_cons, List.not_mem_nil, or_false] at mangled
  have kept : (octal c.toNat).all
      (fun digit => isSpace digit = false ∧ digit ≠ '\x00' ∧ digit ≠ ',') = true := by
    rcases mangled with rfl | rfl | rfl | rfl | rfl <;> decide +kernel
  have digits (digit : Char) (member : digit ∈ octal c.toNat) :=
    of_decide_eq_true (List.all_eq_true.mp kept digit member)
  refine ⟨_, _, _, rfl, ?_⟩
  rw [← and_assoc, ← and_assoc]
  refine ⟨?_, digits⟩
  rcases mangled with rfl | rfl | rfl | rfl | rfl <;> decide +kernel

theorem unescapeLoop_plain {c : Char} (plain : c ≠ '\\') (rest : List Char) :
    unescapeLoop (c :: rest) = c :: unescapeLoop rest := by
  match rest with
  | a :: b :: d :: rest => rw [unescapeLoop, if_neg fun escape => plain escape.1]
  | [] | [_] | [_, _] => rfl

theorem unescapeLoop_mangle (field : List Char) : unescapeLoop (mangle field) = field := by
  induction field with
  | nil => rfl
  | cons c field ih =>
      rw [mangle, List.flatMap_cons, ← mangle]
      by_cases mangled : c ∈ MANGLED
      · obtain ⟨a, b, d, digits, lower, upper, byte, -⟩ := octal_escape mangled
        rw [if_pos mangled, digits]
        show unescapeLoop ('\\' :: a :: b :: d :: mangle field) = _
        rw [unescapeLoop, if_pos ⟨rfl, lower, upper⟩, byte, ih]
      · have plain : c ≠ '\\' := fun backslash => mangled (by simp [backslash, MANGLED])
        rw [if_neg mangled, List.singleton_append, unescapeLoop_plain plain, ih]

theorem unescape_mangle {field : List Char} (text : '\x00' ∉ field) :
    unescape (mangle field) = field := by
  rw [unescape, unescapeLoop_mangle, cString_of_plain text]

theorem mem_mangle {field : List Char} {c : Char} (member : c ∈ mangle field) :
    c ∈ field ∧ c ∉ MANGLED ∨ c = '\\' ∨ isSpace c = false ∧ c ≠ '\x00' ∧ c ≠ ',' := by
  obtain ⟨original, isOriginal, inText⟩ := List.mem_flatMap.mp member
  split at inText
  · rename_i mangled
    obtain ⟨-, -, -, -, -, -, -, digits⟩ := octal_escape mangled
    rcases List.mem_cons.mp inText with backslash | digit
    · exact Or.inr (Or.inl backslash)
    · exact Or.inr (Or.inr (digits c digit))
  · rename_i plain
    obtain rfl := List.mem_singleton.mp inText
    exact Or.inl ⟨isOriginal, plain⟩

theorem mangle_append (first second : List Char) :
    mangle (first ++ second) = mangle first ++ mangle second :=
  List.flatMap_append

theorem mangle_injective {first second : List Char} (same : mangle first = mangle second) :
    first = second := by
  rw [← unescapeLoop_mangle first, same, unescapeLoop_mangle]

theorem mangle_ne_nil {field : List Char} (named : field ≠ []) : mangle field ≠ [] :=
  fun empty => named (mangle_injective (empty.trans rfl))

end Mangle

section Options

variable {opt word rest : List Char}

theorem takeWhile_option (plain : ',' ∉ word) (ends : rest.head?.all (· = ',') = true) :
    (word ++ rest).takeWhile (· ≠ ',') = word ∧ nextComma (word ++ rest) = rest := by
  have inside : ∀ c ∈ word, decide (c ≠ ',') = true := by
    intro c member
    simp only [ne_eq, decide_eq_true_eq]
    rintro rfl
    exact plain member
  have stops : Stops (fun c => decide (c ≠ ',')) rest := by
    intro c first
    simpa [Option.mem_def.mp first] using ends
  refine ⟨takeWhile_chunk inside stops, ?_⟩
  rw [nextComma, List.dropWhile_append_of_pos inside, dropWhile_of_stops stops]

theorem optionHere_iff (plain : ',' ∉ opt) (wordPlain : ',' ∉ word)
    (ends : rest.head?.all (· = ',') = true) : optionHere opt (word ++ rest) = true ↔ word = opt := by
  have split := (takeWhile_option wordPlain ends).1
  simp only [optionHere, Bool.and_eq_true, List.isPrefixOf_iff_prefix]
  constructor
  · rintro ⟨⟨after, same⟩, ended⟩
    rw [← same, List.drop_left] at ended
    rw [← same, (takeWhile_option plain ended).1] at split
    exact split.symm
  · rintro rfl
    refine ⟨List.prefix_append _ _, ?_⟩
    rwa [List.drop_left]

theorem hasOption_step {p : List Char} (skipped : skipComma p = word ++ rest) (plain : ',' ∉ opt)
    (wordPlain : ',' ∉ word) (ends : rest.head?.all (· = ',') = true) :
    hasOption p opt = true ↔ word = opt ∨ rest ≠ [] ∧ hasOption rest opt = true := by
  rw [hasOption, skipped, (takeWhile_option wordPlain ends).2]
  by_cases here : word = opt
  · simp [here, (optionHere_iff plain plain ends).mpr]
  · have absent : optionHere opt (word ++ rest) ≠ true := by
      rwa [ne_eq, optionHere_iff plain wordPlain ends]
    rw [if_neg absent]
    by_cases last : rest = []
    · simp [last, here]
    · simp [last, here]

theorem hasOption_intercalate (plain : ',' ∉ opt) {p : List Char} {words : List (List Char)}
    (skipped : skipComma p = [','].intercalate words) (some : words ≠ [])
    (wordsPlain : ∀ word ∈ words, ',' ∉ word) : hasOption p opt = true ↔ opt ∈ words := by
  induction words generalizing p with
  | nil => exact absurd rfl some
  | cons word words ih =>
      have wordPlain := wordsPlain word (by simp)
      cases words with
      | nil =>
          have single : skipComma p = word ++ [] := by simpa [List.intercalate] using skipped
          rw [hasOption_step single plain wordPlain rfl, List.mem_singleton]
          simp only [ne_eq, not_true_eq_false, false_and, or_false, eq_comm]
      | cons second words =>
          have split : skipComma p = word ++ ',' :: [','].intercalate (second :: words) := by
            simpa [List.intercalate] using skipped
          have later := ih (p := ',' :: [','].intercalate (second :: words)) rfl (by simp)
            fun other member => wordsPlain other (by simp [member])
          rw [hasOption_step split plain wordPlain rfl, later, eq_comm,
            List.mem_cons (a := opt) (b := word)]
          simp only [ne_eq, reduceCtorEq, not_false_eq_true, true_and]

theorem ne_mem_mangle {field : List Char} (plain : ',' ∉ field) : ',' ∉ mangle field := by
  intro member
  rcases mem_mangle member with ⟨inField, -⟩ | backslash | ⟨-, -, other⟩
  · exact plain inField
  · simp at backslash
  · exact other rfl

theorem formatOptions_cons (opt : List Char) (opts : List (List Char)) :
    ∃ rest, formatOptions (opt :: opts) = mangle opt ++ rest := by
  cases opts with
  | nil => exact ⟨[], by simp [formatOptions, List.intercalate]⟩
  | cons second opts =>
      exact ⟨',' :: formatOptions (second :: opts), by simp [formatOptions, List.intercalate]⟩

theorem mem_formatOptions {opts : List (List Char)} {c : Char} (member : c ∈ formatOptions opts) :
    c = ',' ∨ ∃ opt ∈ opts, c ∈ mangle opt := by
  induction opts with
  | nil => simp [formatOptions, List.intercalate] at member
  | cons opt opts ih =>
      cases opts with
      | nil => exact Or.inr ⟨opt, by simp, by simpa [formatOptions, List.intercalate] using member⟩
      | cons second opts =>
          have split : formatOptions (opt :: second :: opts) =
              mangle opt ++ ',' :: formatOptions (second :: opts) := by
            simp [formatOptions, List.intercalate]
          rw [split, List.mem_append, List.mem_cons] at member
          rcases member with here | comma | later
          · exact Or.inr ⟨opt, by simp, here⟩
          · exact Or.inl comma
          · rcases ih later with comma | ⟨other, isOther, inOther⟩
            · exact Or.inl comma
            · exact Or.inr ⟨other, List.mem_cons_of_mem opt isOther, inOther⟩

theorem formatOptions_ne_nil {opts : List (List Char)} (first : opts.head?.any (· ≠ [])) :
    formatOptions opts ≠ [] := by
  cases opts with
  | nil => simp at first
  | cons opt opts =>
      obtain ⟨after, split⟩ := formatOptions_cons opt opts
      rw [split]
      exact List.append_ne_nil_of_left_ne_nil (mangle_ne_nil (by simpa using first)) after

/-- `has_option` finds a word between commas. -/
theorem hasOption_iff (plain : ',' ∉ opt) (some : opt ≠ []) (text : List Char) :
    hasOption text opt = true ↔ opt ∈ text.splitOn ',' := by
  have wordsPlain (text : List Char) : ∀ word ∈ text.splitOn ',', ',' ∉ word := by
    intro word member comma
    have inside : word ∈ text.splitOnP (· == ',') := member
    simpa using (mem_splitOnP inside).1 _ comma
  by_cases comma : text.head? = Option.some ','
  · obtain ⟨rest, rfl⟩ : ∃ rest, text = ',' :: rest := by
      cases text with
      | nil => simp at comma
      | cons c rest => exact ⟨rest, by simpa using comma⟩
    have skipped : skipComma (',' :: rest) = [','].intercalate (rest.splitOn ',') := by
      rw [List.intercalate_splitOn]
      rfl
    rw [hasOption_intercalate plain skipped (List.splitOn_ne_nil _ _) (wordsPlain rest)]
    simp [List.splitOn_eq_splitOnP, List.splitOnP_cons_eq_if_modifyHead, some]
  · have skipped : skipComma text = [','].intercalate (text.splitOn ',') := by
      rw [List.intercalate_splitOn, skipComma, if_neg comma]
    exact hasOption_intercalate plain skipped (List.splitOn_ne_nil _ _) (wordsPlain text)

theorem ro_mem_formatOptions {opts : List (List Char)} (first : opts.head?.any (· ≠ []))
    (plain : ∀ opt ∈ opts, ',' ∉ opt) :
    "ro".toList ∈ (formatOptions opts).splitOn ',' ↔ "ro".toList ∈ opts := by
  have some : opts.map mangle ≠ [] := by
    rintro none
    simp [List.map_eq_nil_iff.mp none] at first
  have mangledPlain : ∀ word ∈ opts.map mangle, ',' ∉ word := by
    intro word member
    obtain ⟨opt, isOpt, rfl⟩ := List.mem_map.mp member
    exact ne_mem_mangle (plain opt isOpt)
  have fixed : mangle "ro".toList = "ro".toList := by decide +kernel
  rw [formatOptions, List.splitOn_intercalate ',' mangledPlain some, List.mem_map]
  constructor
  · rintro ⟨opt, member, same⟩
    rwa [← mangle_injective (same.trans fixed.symm)]
  · intro member
    exact ⟨_, member, fixed⟩

end Options

section Lines

variable {word rest : List Char}

theorem separator_toList : " - ".toList = [' ', '-', ' '] := rfl

theorem afterSeparator_word (plain : ' ' ∉ word) :
    afterSeparator (word ++ ' ' :: rest) = afterSeparator (' ' :: rest) := by
  induction word with
  | nil => rfl
  | cons c word ih =>
      simp only [List.mem_cons, not_or] at plain
      have other : ¬ " - ".toList.isPrefixOf (c :: (word ++ ' ' :: rest)) = true := by
        rw [separator_toList, List.isPrefixOf_iff_prefix]
        intro isStart
        exact plain.1 (List.cons_prefix_cons.mp isStart).1
      rw [List.cons_append, afterSeparator, if_neg other, ih plain.2]

/-- The space before a word that is not the separator. -/
theorem afterSeparator_space (plain : ' ' ∉ word) (separated : word ≠ "-".toList) :
    afterSeparator (' ' :: (word ++ ' ' :: rest)) = afterSeparator (word ++ ' ' :: rest) := by
  have other : ¬ " - ".toList.isPrefixOf (' ' :: (word ++ ' ' :: rest)) = true := by
    rw [separator_toList, List.isPrefixOf_iff_prefix]
    intro isStart
    have second := (List.cons_prefix_cons.mp isStart).2
    cases word with
    | nil => exact absurd (List.cons_prefix_cons.mp second).1 (by decide)
    | cons c word =>
        obtain ⟨rfl, third⟩ := List.cons_prefix_cons.mp second
        cases word with
        | nil => exact separated rfl
        | cons next word =>
            obtain ⟨rfl, -⟩ := List.cons_prefix_cons.mp third
            simp at plain
  rw [afterSeparator, if_neg other]

theorem afterSeparator_spaced {words : List (List Char)} (nonempty : words ≠ [])
    (plain : ∀ word ∈ words, ' ' ∉ word) (separated : ∀ word ∈ words, word ≠ "-".toList) :
    afterSeparator (spaced words ('-' :: ' ' :: rest)) = some rest := by
  induction words with
  | nil => exact absurd rfl nonempty
  | cons word words ih =>
      show afterSeparator (word ++ ' ' :: spaced words ('-' :: ' ' :: rest)) = some rest
      rw [afterSeparator_word (plain word (by simp))]
      cases words with
      | nil => rfl
      | cons next words =>
          show afterSeparator (' ' :: (next ++ ' ' :: spaced words ('-' :: ' ' :: rest))) = some rest
          rw [afterSeparator_space (plain next (by simp)) (separated next (by simp))]
          exact ih (by simp) (fun other member => plain other (List.mem_cons_of_mem word member))
            (fun other member => separated other (List.mem_cons_of_mem word member))

theorem skipWord_word {width : ℕ} (isWord : IsWord width word) :
    skipWord (word ++ ' ' :: rest) = some (' ' :: rest) ∧
      skipWord (' ' :: (word ++ ' ' :: rest)) = some (' ' :: rest) := by
  have whole (size : ℕ) (long : word.length ≤ size) : IsWord size word :=
    ⟨isWord.found, long, isWord.plain⟩
  refine ⟨?_, ?_⟩
  · rw [skipWord, scanWord_then_space (whole _ (by simp))]
    rfl
  · rw [skipWord, scanWord_space, scanWord_then_space (whole _ (by simp; omega))]
    rfl

end Lines

/-- The white space the kernel leaves as it is. -/
theorem isSpace_kept {c : Char} (space : isSpace c = true) (kept : c ∉ MANGLED) :
    c = '\x0b' ∨ c = '\x0c' ∨ c = '\r' := by
  have tab : c ≠ '\t' := fun tab => kept (by simp [tab, MANGLED])
  have newline : c ≠ '\n' := fun newline => kept (by simp [newline, MANGLED])
  have blank : c ≠ ' ' := fun blank => kept (by simp [blank, MANGLED])
  have bounds : 9 ≤ c.toNat ∧ c.toNat ≤ 13 := by
    simpa [isSpace, blank, Char.le_def, UInt32.le_iff_toNat_le] using space
  have codes : '\t'.toNat = 9 ∧ '\n'.toNat = 10 ∧ '\x0b'.toNat = 11 ∧ '\x0c'.toNat = 12 ∧
      '\r'.toNat = 13 := by decide
  simp only [ne_eq, ← Char.toNat_inj] at tab newline ⊢
  omega

theorem isSpace_mangle {field : List Char} (plain : '\x0b' ∉ field ∧ '\x0c' ∉ field ∧ '\r' ∉ field) :
    ∀ c ∈ mangle field, isSpace c = false := by
  intro c member
  rcases mem_mangle member with ⟨inField, kept⟩ | rfl | ⟨other, -⟩
  · by_contra space
    rcases isSpace_kept (by simpa using space) kept with rfl | rfl | rfl
    · exact plain.1 inField
    · exact plain.2.1 inField
    · exact plain.2.2 inField
  · decide
  · exact other

theorem isSpace_formatOptions {opts : List (List Char)}
    (plain : ∀ opt ∈ opts, '\x0b' ∉ opt ∧ '\x0c' ∉ opt ∧ '\r' ∉ opt) :
    ∀ c ∈ formatOptions opts, isSpace c = false := by
  intro c member
  rcases mem_formatOptions member with rfl | ⟨opt, isOpt, inOpt⟩
  · decide
  · exact isSpace_mangle (plain opt isOpt) c inOpt

theorem clean_mangle {field : List Char} (text : '\x00' ∉ field) : Clean (mangle field) := by
  intro c member
  rcases mem_mangle member with ⟨inField, kept⟩ | rfl | ⟨other, noNul, -⟩
  · refine ⟨?_, fun nul => text (nul ▸ inField)⟩
    rintro rfl
    exact kept (by decide)
  · decide
  · refine ⟨?_, noNul⟩
    rintro rfl
    exact absurd other (by decide)

theorem space_notMem_mangle (field : List Char) : ' ' ∉ mangle field := by
  intro member
  rcases mem_mangle member with ⟨-, kept⟩ | backslash | ⟨other, -⟩
  · exact kept (by decide)
  · exact absurd backslash (by decide)
  · exact absurd other (by decide)

theorem formatDevice_injective {first second : ℕ × ℕ}
    (same : formatDevice first = formatDevice second) : first = second := by
  have digits (device : ℕ × ℕ) :
      (formatDevice device).takeWhile Char.isDigit = formatUnsigned device.1 :=
    takeWhile_chunk (isDigit_formatUnsigned device.1) (stops_cons rfl)
  have major : formatUnsigned first.1 = formatUnsigned second.1 := by
    rw [← digits first, same, digits]
  have minor : formatUnsigned first.2 = formatUnsigned second.2 := by
    simpa [formatDevice, major] using same
  refine Prod.ext ?_ ?_
  · rw [← decimal_formatUnsigned first.1, major, decimal_formatUnsigned]
  · rw [← decimal_formatUnsigned first.2, minor, decimal_formatUnsigned]

theorem isWord_formatDevice {device : ℕ × ℕ} {width : ℕ}
    (short : (formatDevice device).length ≤ width) : IsWord width (formatDevice device) := by
  refine ⟨by simp [formatDevice], short, ?_⟩
  have number (n : ℕ) : ∀ c ∈ formatUnsigned n, isSpace c = false ∧ c ≠ '\x00' :=
    (isWord_of_isXdigit (formatUnsigned_ne_nil n) le_rfl
      fun c member => isXdigit_of_isDigit (isDigit_formatUnsigned n c member)).plain
  intro c member
  rw [formatDevice, List.mem_append, List.mem_cons] at member
  rcases member with major | rfl | minor
  · exact number _ c major
  · decide
  · exact number _ c minor

theorem prefix_mangle {source : List Char} :
    "/dev/".toList <+: mangle source ↔ "/dev/".toList <+: source := by
  have fixed : mangle "/dev/".toList = "/dev/".toList := by decide +kernel
  have letters : "/dev/".toList = ['/', 'd', 'e', 'v', '/'] := rfl
  constructor
  · rintro ⟨rest, same⟩
    refine ⟨unescapeLoop rest, ?_⟩
    rw [← unescapeLoop_mangle source, ← same, letters]
    simp [unescapeLoop_plain]
  · rintro ⟨rest, rfl⟩
    refine ⟨mangle rest, ?_⟩
    rw [mangle_append, fixed]

namespace Mount

variable {m : Mount}

theorem line_eq (m : Mount) : m.line = spaced m.words ('-' :: ' ' :: m.back) := by
  rw [line, spaced, List.foldr_append]
  rfl

theorem line_eq_front (m : Mount) : m.line = formatUnsigned m.id ++ ' ' :: (formatUnsigned m.parent ++
    ' ' :: (formatDevice m.device ++ ' ' :: m.front)) := by
  rw [line_eq, words, front]
  simp only [spaced, List.foldr_append, List.foldr_cons, List.foldr_nil]
  rfl

theorem space_notMem_words : ∀ word ∈ m.words, ' ' ∉ word := by
  have number (n : ℕ) : ' ' ∉ formatUnsigned n := fun member =>
    absurd (isDigit_formatUnsigned n _ member) (by decide)
  have options : ' ' ∉ formatOptions m.opts := by
    intro member
    rcases mem_formatOptions member with comma | ⟨opt, -, inOpt⟩
    · exact absurd comma (by decide)
    · exact space_notMem_mangle opt inOpt
  intro word member
  simp only [words, List.cons_append, List.nil_append, List.mem_cons, List.mem_map] at member
  rcases member with rfl | rfl | rfl | rfl | rfl | rfl | ⟨tag, -, rfl⟩
  · exact number m.id
  · exact number m.parent
  · simp [formatDevice, number]
  · exact space_notMem_mangle m.root
  · exact space_notMem_mangle m.point
  · exact options
  · exact space_notMem_mangle tag

theorem WellFormed.afterSeparator_line (wellFormed : m.WellFormed) :
    afterSeparator m.line = some m.back := by
  rw [line_eq]
  exact afterSeparator_spaced (by simp [words]) space_notMem_words wellFormed.separated

/-- What the line of a mount is read as. -/
theorem WellFormed.mountOf_line (wellFormed : m.WellFormed) :
    (mountOf m.line).map (fun read => (read.1, unescape read.2)) =
      m.seen.map (formatDevice m.device, ·) := by
  have number (n : ℕ) : IsWord (formatUnsigned n).length (formatUnsigned n) :=
    isWord_of_isXdigit (formatUnsigned_ne_nil n) le_rfl
      fun c member => isXdigit_of_isDigit (isDigit_formatUnsigned n c member)
  have device : IsWord 15 (formatDevice m.device) :=
    isWord_formatDevice (Nat.le_of_lt_succ wellFormed.buffers.1)
  have ro (text : List Char) : hasOption text "ro".toList = true ↔ "ro".toList ∈ text.splitOn ',' :=
    hasOption_iff (by decide +kernel) (by decide +kernel) text
  simp only [mountOf, wellFormed.afterSeparator_line, Option.bind_eq_bind, Option.bind_some]
  rw [line_eq_front]
  simp only [(skipWord_word (number m.id)).1, (skipWord_word (number m.parent)).2, scanWord_space,
    scanWord_then_space device, Option.bind_some, seen, Option.bind_eq_bind]
  rcases skipWord_cases (' ' :: m.front) with ⟨unread, none⟩ | ⟨rest, skipped, words⟩
  · rw [wordsOf_space rfl] at none
    simp [unread, none, nextWord]
  rw [wordsOf_space rfl] at words
  rw [skipped, Option.bind_some, ← words]
  refine scanWord_bind (by decide) rest fun point rest => ?_
  refine scanWord_bind (by decide) rest fun opts _ => ?_
  refine scanWord_bind (by decide) m.back fun _ rest => ?_
  refine scanWord_bind (by decide) rest fun source rest => ?_
  refine scanWord_bind (by decide) rest fun super _ => ?_
  have refused : (!"/dev/".toList.isPrefixOf source || hasOption opts "ro".toList ||
      hasOption super "ro".toList) = true ↔ ¬ Freezable source (opts.splitOn ',') (super.splitOn ',') := by
    rw [Freezable, Bool.or_eq_true, Bool.or_eq_true, ro, ro, Bool.not_eq_true', ← Bool.not_eq_true,
      List.isPrefixOf_iff_prefix, not_and_or, not_and_or, not_not, not_not, or_assoc]
  by_cases wanted : Freezable source (opts.splitOn ',') (super.splitOn ',')
  · rw [if_neg fun refuses => refused.mp refuses wanted]
    simp only [if_pos wanted]
    rfl
  · rw [if_pos (refused.mpr wanted)]
    simp only [if_neg wanted]
    rfl

/-- The path that is to be frozen through a mount. -/
def right (m : Mount) : Option Path := if m.Writable then some m.point else none

theorem WellFormed.words_front (wellFormed : m.WellFormed) (plain : m.Plain) :
    ∃ rest, wordsOf m.front = mangle m.root :: mangle m.point :: formatOptions m.opts :: rest := by
  have split : m.front = spaced [mangle m.root, mangle m.point, formatOptions m.opts]
      (spaced (m.optional.map mangle ++ ["-".toList]) m.back) := by
    simp only [front, spaced, List.foldr_append]
  refine ⟨wordsOf (spaced (m.optional.map mangle ++ ["-".toList]) m.back), ?_⟩
  rw [split, wordsOf_spaced ?_]
  · rfl
  intro word member
  simp only [List.mem_cons, List.not_mem_nil, or_false] at member
  rcases member with rfl | rfl | rfl
  · exact ⟨mangle_ne_nil wellFormed.named.1, isSpace_mangle (plain m.root (by simp))⟩
  · exact ⟨mangle_ne_nil wellFormed.named.2.1, isSpace_mangle (plain m.point (by simp))⟩
  · exact ⟨formatOptions_ne_nil wellFormed.opts.1,
      isSpace_formatOptions fun opt isOpt => plain opt (by simp [isOpt])⟩

theorem WellFormed.words_back (wellFormed : m.WellFormed) (plain : m.Plain) :
    wordsOf m.back = mangle m.fstype ::
      ([mangle m.source].filter (· ≠ []) ++ [formatOptions m.super]) := by
  have split : m.back = spaced [mangle m.fstype] (mangle m.source ++ ' ' :: formatOptions m.super) := rfl
  have fstype : ∀ word ∈ [mangle m.fstype], word ≠ [] ∧ ∀ c ∈ word, isSpace c = false := by
    rw [List.forall_mem_singleton]
    exact ⟨mangle_ne_nil wellFormed.named.2.2.1, isSpace_mangle (plain m.fstype (by simp))⟩
  have super : wordsOf (formatOptions m.super) = [formatOptions m.super] :=
    wordsOf_single (formatOptions_ne_nil wellFormed.super.1)
      (isSpace_formatOptions fun opt isOpt => plain opt (by simp [isOpt]))
  have source : wordsOf (mangle m.source) = [mangle m.source].filter (· ≠ []) := by
    rw [wordsOf, List.splitOnP_eq_singleton (isSpace_mangle (plain m.source (by simp)))]
  rw [split, wordsOf_spaced fstype, wordsOf_append_space rfl, super, source]
  rfl

theorem WellFormed.seen_of_plain (wellFormed : m.WellFormed) (plain : m.Plain) :
    m.seen = m.right := by
  obtain ⟨-, pointShort, optsShort, fstypeShort, sourceShort, superShort⟩ := wellFormed.buffers
  obtain ⟨rest, front⟩ := wellFormed.words_front plain
  have wanted : Freezable (mangle m.source) ((formatOptions m.opts).splitOn ',')
      ((formatOptions m.super).splitOn ',') ↔ m.Writable := by
    rw [Freezable, ro_mem_formatOptions wellFormed.opts.1 wellFormed.opts.2,
      ro_mem_formatOptions wellFormed.super.1 wellFormed.super.2, prefix_mangle, Writable, Freezable]
  simp only [seen, front, wellFormed.words_back plain, List.tail_cons, Option.bind_eq_bind,
    nextWord_short (Nat.le_of_lt_succ pointShort), nextWord_short (Nat.le_of_lt_succ optsShort),
    nextWord_short (Nat.le_of_lt_succ fstypeShort), Option.bind_some]
  by_cases unnamed : m.source = []
  · -- The options are then read in the place of the source, and the line ends too early.
    have unwritable : ¬ m.Writable := by
      rintro ⟨isDev, -⟩
      rw [unnamed] at isDev
      exact absurd isDev (by decide +kernel)
    have empty : mangle m.source = [] := by rw [unnamed]; rfl
    rw [right, if_neg unwritable, empty]
    simp only [ne_eq, not_true_eq_false, decide_false, Bool.false_eq_true, not_false_eq_true,
      List.filter_cons_of_neg, List.filter_nil, List.nil_append,
      nextWord_short (Nat.le_of_lt_succ superShort), Option.bind_some]
    rfl
  · rw [List.filter_cons_of_pos (by simpa using mangle_ne_nil unnamed)]
    simp only [List.filter_nil, List.singleton_append, nextWord_short (Nat.le_of_lt_succ sourceShort),
      nextWord_short (Nat.le_of_lt_succ superShort), Option.bind_some, wanted, right,
      unescape_mangle (wellFormed.text m.point (by simp [fields]))]

end Mount

theorem mountLine_of_short {line : List Char} (short : line.length < 4096) : mountLine line = line := by
  have small : line.length % 2 ^ 32 = line.length := Nat.mod_eq_of_lt (by omega)
  simp only [mountLine, small]
  rw [if_pos (by omega), List.take_of_length_le le_rfl, List.take_of_length_le (by omega)]

section Collect

variable {taken : List (ℕ × ℕ)}

theorem formatDevice_mem_iff {device : ℕ × ℕ} :
    formatDevice device ∈ taken.map formatDevice ↔ device ∈ taken := by
  simp only [List.mem_map]
  constructor
  · rintro ⟨other, member, same⟩
    rwa [← formatDevice_injective same]
  · intro member
    exact ⟨device, member, rfl⟩

/-- The loop, with the devices that it has a path of. -/
theorem collectPaths_lines {mounts : List Mount} (wellFormed : ∀ m ∈ mounts, m.WellFormed)
    (paths : List Path) (room : taken.length ≤ FREEZE_MAX) :
    let result := collectPaths (fun _ => true) (mounts.map Mount.line) (taken.map formatDevice) paths
    let seen := firstOf taken (mounts.map fun m => (m.device, m.seen))
    if taken.length + seen.length ≤ FREEZE_MAX then result = (0, paths ++ seen.map Prod.snd)
    else result.1 = -E2BIG := by
  induction mounts generalizing taken paths with
  | nil => simp [firstOf, collectPaths, room]
  | cons m mounts ih =>
      have mWellFormed := wellFormed m (by simp)
      have later {taken : List (ℕ × ℕ)} (paths : List Path) (room : taken.length ≤ FREEZE_MAX) :=
        ih (fun m member => wellFormed m (by simp [member])) paths room
      have read := mWellFormed.mountOf_line
      rw [← mountLine_of_short mWellFormed.short] at read
      simp only [List.map_cons, collectPaths]
      cases seen : m.seen with
      | none =>
          rw [seen, Option.map_none, Option.map_eq_none_iff] at read
          rw [read]
          exact later paths room
      | some path =>
          rw [seen, Option.map_some, Option.map_eq_some_iff] at read
          obtain ⟨⟨dev, point⟩, found, same⟩ := read
          obtain ⟨rfl, rfl⟩ := Prod.mk.inj same
          rw [found]
          simp only [formatDevice_mem_iff, firstOf, if_true, List.length_map]
          by_cases known : m.device ∈ taken
          · rw [if_pos known, if_pos known]
            exact later paths room
          · rw [if_neg known, if_neg known]
            by_cases full : taken.length = FREEZE_MAX
            · rw [if_pos full, if_neg]
              simp only [List.length_cons, full]
              omega
            · have more := @later (taken ++ [m.device]) (paths ++ [unescape point])
                (by simp only [List.length_append, List.length_singleton]; omega)
              rw [if_neg full]
              simpa [Nat.add_assoc, Nat.add_comm 1] using more

/-- The devices taken are those with a writable mount before. -/
def Known (before : List Mount) (taken : List (ℕ × ℕ)) : Prop :=
  ∀ device, device ∈ taken ↔ ∃ other ∈ before, other.Writable ∧ other.device = device

variable {before : List Mount} {m : Mount}

theorem writable_append (before : List Mount) (m : Mount) (device : ℕ × ℕ) :
    (∃ other ∈ before ++ [m], other.Writable ∧ other.device = device) ↔
      (∃ other ∈ before, other.Writable ∧ other.device = device) ∨ m.Writable ∧ m.device = device := by
  simp [or_and_right, exists_or]

theorem Known.firstWritable_iff (known : Known before taken) :
    FirstWritable before m ↔ m.Writable ∧ m.device ∉ taken := by
  rw [known m.device, FirstWritable]
  refine and_congr_right fun _ => ?_
  simp only [not_exists, not_and]

theorem Known.skip (known : Known before taken) (covered : m.Writable → m.device ∈ taken) :
    Known (before ++ [m]) taken := by
  intro device
  rw [known device, writable_append]
  refine (or_iff_left_of_imp ?_).symm
  rintro ⟨writable, rfl⟩
  exact (known m.device).mp (covered writable)

theorem Known.take (known : Known before taken) (writable : m.Writable) :
    Known (before ++ [m]) (taken ++ [m.device]) := by
  intro device
  rw [writable_append, List.mem_append, known device, List.mem_singleton, and_iff_right writable,
    eq_comm]

theorem toFreezeFrom_eq {mounts : List Mount} (known : Known before taken) :
    (toFreezeFrom before mounts).map (fun m => (m.device, m.point)) =
      firstOf taken (mounts.map fun m => (m.device, m.right)) := by
  induction mounts generalizing before taken with
  | nil => rfl
  | cons m mounts ih =>
      simp only [toFreezeFrom, List.map_cons, known.firstWritable_iff, Mount.right]
      by_cases writable : m.Writable
      · simp only [writable, if_true, true_and, firstOf]
        by_cases seen : m.device ∈ taken
        · rw [if_neg (not_not.mpr seen), if_pos seen]
          exact ih (known.skip fun _ => seen)
        · rw [if_pos seen, if_neg seen, List.map_cons, ih (known.take writable)]
          rfl
      · simp only [writable, if_false, false_and, firstOf]
        exact ih (known.skip fun isWritable => absurd isWritable writable)

theorem toFreeze_append_single (before : List Mount) (m : Mount) :
    toFreeze (before ++ [m]) = toFreeze before ++ if FirstWritable before m then [m] else [] := by
  have append : ∀ (first earlier : List Mount), toFreezeFrom earlier (first ++ [m]) =
      toFreezeFrom earlier first ++ if FirstWritable (earlier ++ first) m then [m] else [] := by
    intro first
    induction first with
    | nil =>
        intro earlier
        simp [toFreezeFrom]
    | cons next first ih =>
        intro earlier
        have later := ih (earlier ++ [next])
        simp only [List.append_assoc, List.singleton_append] at later
        simp only [List.cons_append, toFreezeFrom, later]
        split <;> rfl
  exact append before []

theorem Known.count_append (known : Known before taken) (count : (toFreeze before).length = taken.length) (m : Mount) :
    (toFreeze (before ++ [m])).length = taken.length + if m.Writable ∧ m.device ∉ taken then 1 else 0 := by
  rw [toFreeze_append_single, List.length_append, count]
  simp only [known.firstWritable_iff]
  split
  · rfl
  · rfl

theorem firstOf_skip {device : ℕ × ℕ} {path : Option Path} (covered : device ∈ taken ∨ path = none)
    (others : List ((ℕ × ℕ) × Option Path)) :
    firstOf taken ((device, path) :: others) = firstOf taken others := by
  cases path with
  | none => rfl
  | some path => rw [firstOf, if_pos (covered.resolve_right (by simp))]

/-- Mounts that are seen right, each as long as there is room and its device is not taken, make
the right paths. -/
theorem firstOf_seen {rest : List Mount} (known : Known before taken)
    (count : (toFreeze before).length = taken.length)
    (same : ∀ middle m after, rest = middle ++ m :: after →
      (toFreeze (before ++ middle)).length ≤ FREEZE_MAX →
      (∀ other ∈ before ++ middle, other.Writable → other.device ≠ m.device) → m.seen = m.right) :
    let seen := firstOf taken (rest.map fun m => (m.device, m.seen))
    let right := firstOf taken (rest.map fun m => (m.device, m.right))
    if taken.length + right.length ≤ FREEZE_MAX then seen = right
    else FREEZE_MAX < taken.length + seen.length := by
  induction rest generalizing before taken with
  | nil => simp [firstOf]
  | cons m rest ih =>
      intro seen right
      by_cases room : FREEZE_MAX < taken.length
      · rw [if_neg (by omega)]
        omega
      have later {taken : List (ℕ × ℕ)} (known : Known (before ++ [m]) taken)
          (count : (toFreeze (before ++ [m])).length = taken.length) :=
        ih known count fun middle other after split => by
          simpa using same (m :: middle) other after (by rw [split, List.cons_append])
      have counted := known.count_append count m
      by_cases covered : m.device ∈ taken
      · have rest := later (known.skip fun _ => covered) (by simp [counted, covered])
        simp only [seen, right, List.map_cons, firstOf_skip (.inl covered)]
        exact rest
      have equal : m.seen = m.right := by
        refine same [] m rest rfl (by simpa [count] using room) ?_
        intro other member writable device
        rw [List.append_nil] at member
        exact covered ((known m.device).mpr ⟨other, member, writable, device⟩)
      by_cases writable : m.Writable
      · have rest := later (known.take writable) (by simp [counted, covered, writable])
        have path : m.right = some m.point := if_pos writable
        simp only [seen, right, List.map_cons, equal, path, firstOf, if_neg covered]
        simpa [Nat.add_assoc, Nat.add_comm 1] using rest
      · have rest := later (known.skip fun is => absurd is writable) (by simp [counted, writable])
        have path : m.right = none := if_neg writable
        simp only [seen, right, List.map_cons, equal, path, firstOf_skip (.inr rfl)]
        exact rest

end Collect

theorem toFreeze_eq (mounts : List Mount) :
    (toFreeze mounts).map (fun m => (m.device, m.point)) =
      firstOf [] (mounts.map fun m => (m.device, m.right)) :=
  toFreezeFrom_eq (by simp [Known])

theorem clean_spacedWords {words : List (List Char)} {rest : List Char}
    (wordsClean : ∀ word ∈ words, Clean word) (restClean : Clean rest) : Clean (spaced words rest) := by
  induction words with
  | nil => exact restClean
  | cons word words ih =>
      exact (wordsClean word (by simp)).spaced
        (ih fun other member => wordsClean other (by simp [member]))

theorem clean_formatOptions {opts : List (List Char)} (text : ∀ opt ∈ opts, '\x00' ∉ opt) :
    Clean (formatOptions opts) := by
  intro c member
  rcases mem_formatOptions member with rfl | ⟨opt, isOpt, inOpt⟩
  · decide
  · exact clean_mangle (text opt isOpt) c inOpt

theorem Mount.WellFormed.line_clean {m : Mount} (wellFormed : m.WellFormed) : Clean m.line := by
  have number (n : ℕ) : Clean (formatUnsigned n) := by
    intro c member
    have digit := isDigit_formatUnsigned n c member
    constructor <;> rintro rfl <;> exact absurd digit (by decide)
  have field {field : List Char} (isField : field ∈ m.fields) : Clean (mangle field) :=
    clean_mangle (wellFormed.text field isField)
  have device : Clean (formatDevice m.device) := (isWord_formatDevice le_rfl).clean
  refine clean_spacedWords ?_
    (clean_formatOptions fun opt member => wellFormed.text opt (by simp [Mount.fields, member]))
  intro word member
  simp only [words, List.cons_append, List.nil_append, List.mem_cons, List.mem_append,
    List.mem_map, List.not_mem_nil, or_false] at member
  rcases member with rfl | rfl | rfl | rfl | rfl | rfl | ⟨tag, isTag, rfl⟩ | rfl | rfl | rfl
  · exact number m.id
  · exact number m.parent
  · exact device
  · exact field (by simp [Mount.fields])
  · exact field (by simp [Mount.fields])
  · exact clean_formatOptions fun opt member => wellFormed.text opt (by simp [Mount.fields, member])
  · exact field (by simp [Mount.fields, isTag])
  · exact (show IsWord 1 "-".toList by decide +kernel).clean
  · exact field (by simp [Mount.fields])
  · exact field (by simp [Mount.fields])

theorem freezeCollect_mounts {mounts : List Mount} (wellFormed : ∀ m ∈ mounts, m.WellFormed) :
    let result := freezeCollect (fun _ => true) (mountinfo mounts)
    let seen := firstOf [] (mounts.map fun m => (m.device, m.seen))
    if seen.length ≤ FREEZE_MAX then result = (0, seen.map Prod.snd) else result.1 = -E2BIG := by
  have clean : ∀ line ∈ mounts.map Mount.line, Clean line := by
    intro line member
    obtain ⟨m, isMount, rfl⟩ := List.mem_map.mp member
    exact (wellFormed m isMount).line_clean
  have text : mountinfo mounts = (mounts.map Mount.line).flatMap fun line => line ++ ['\n'] := by
    rw [mountinfo, List.flatMap_map]
  have string : cString (mountinfo mounts) = mountinfo mounts := by
    refine cString_of_plain fun member => ?_
    rw [text] at member
    obtain ⟨line, isLine, inLine⟩ := List.mem_flatMap.mp member
    rcases List.mem_append.mp inLine with inLine | newline
    · exact (clean line isLine _ inLine).2 rfl
    · simp at newline
  have lines : textLines (mountinfo mounts) = mounts.map Mount.line := by
    rw [text]
    exact textLines_lines fun line member newline => (clean line member _ newline).1 rfl
  have collected := @collectPaths_lines [] mounts wellFormed [] (Nat.zero_le _)
  simpa only [freezeCollect, string, lines, List.map_nil, List.nil_append, List.length_nil, Nat.zero_add]
    using collected

theorem frozenOnce_iff_seenRight {mounts : List Mount} (wellFormed : ∀ m ∈ mounts, m.WellFormed) :
    FrozenOnce mounts ↔ SeenRight mounts := by
  have collected := freezeCollect_mounts wellFormed
  simp only at collected
  unfold FrozenOnce SeenRight
  generalize firstOf [] (mounts.map fun m => (m.device, m.seen)) = seen at collected ⊢
  generalize freezeCollect (fun _ => true) (mountinfo mounts) = result at collected ⊢
  by_cases few : (toFreeze mounts).length ≤ FREEZE_MAX
  · simp only [if_pos few]
    constructor
    · rintro rfl
      split at collected
      · exact (Prod.mk.inj collected).2.symm
      · simp [E2BIG] at collected
    · intro same
      have length := congrArg List.length same
      simp only [List.length_map] at length
      rw [if_pos (by omega)] at collected
      rw [collected, same]
  · simp only [if_neg few]
    constructor
    · intro failed
      by_contra kept
      rw [if_pos (by omega)] at collected
      rw [collected] at failed
      simp [E2BIG] at failed
    · intro many
      rwa [if_neg (by omega)] at collected

/-- Each device with a writable mount is frozen once, at its first one, exactly if what the words of
the lines show makes the same paths. It does if no mount has white space of its own that is read
while there is room and before a writable mount of its device was. -/
theorem frozenOnce_mounts {mounts : List Mount} (wellFormed : ∀ m ∈ mounts, m.WellFormed) :
    (FrozenOnce mounts ↔ SeenRight mounts) ∧
      ((∀ before m after, mounts = before ++ m :: after → (toFreeze before).length ≤ FREEZE_MAX →
          (∀ other ∈ before, other.Writable → other.device ≠ m.device) → m.Plain) →
        FrozenOnce mounts) := by
  refine ⟨frozenOnce_iff_seenRight wellFormed, fun plain => ?_⟩
  rw [frozenOnce_iff_seenRight wellFormed]
  have counted := firstOf_seen (show Known [] [] by simp [Known]) rfl
    fun middle m after split room first =>
      (wellFormed m (by simp [split])).seen_of_plain (plain middle m after split room first)
  rw [← toFreeze_eq] at counted
  simp only [List.length_nil, Nat.zero_add, List.length_map] at counted
  unfold SeenRight
  by_cases few : (toFreeze mounts).length ≤ FREEZE_MAX
  · rw [if_pos few] at counted
    simp only [if_pos few, counted, List.map_map]
    rfl
  · rw [if_neg few] at counted
    simpa only [if_neg few] using counted

instance (m : Mount) : Decidable m.WellFormed :=
  decidable_of_iff
    ((∀ field ∈ m.fields, '\x00' ∉ field) ∧
      (m.root ≠ [] ∧ m.point ≠ [] ∧ m.fstype ≠ [] ∧ ∀ tag ∈ m.optional, tag ≠ []) ∧
      (∀ word ∈ m.words, word ≠ "-".toList) ∧
      ((m.opts.head?.any (· ≠ [])) ∧ ∀ opt ∈ m.opts, ',' ∉ opt) ∧
      ((m.super.head?.any (· ≠ [])) ∧ ∀ opt ∈ m.super, ',' ∉ opt) ∧
      ((formatDevice m.device).length < 16 ∧ (mangle m.point).length < 1024 ∧
        (formatOptions m.opts).length < 512 ∧ (mangle m.fstype).length < 64 ∧
        (mangle m.source).length < 512 ∧ (formatOptions m.super).length < 512) ∧
      m.line.length < 4096)
    ⟨fun ⟨text, named, separated, opts, super, buffers, short⟩ =>
        ⟨text, named, separated, opts, super, buffers, short⟩,
      fun m => ⟨m.text, m.named, m.separated, m.opts, m.super, m.buffers, m.short⟩⟩

instance (m : Mount) : Decidable m.Plain :=
  inferInstanceAs (Decidable (∀ field ∈ _, _))

def sampleMount (point : Path) : Mount where
  id := 30
  parent := 22
  device := (252, 6)
  root := "/".toList
  point := point
  opts := ["rw".toList, "relatime".toList]
  optional := ["shared:6".toList]
  fstype := "ext4".toList
  source := "/dev/vda6".toList
  super := ["rw".toList]

/-- A carriage return is no harm in a later mount of the device. -/
theorem frozenOnce_mounts_bound :
    freezeCollect (fun _ => true)
        (mountinfo [sampleMount "/data".toList, sampleMount "/data\rro".toList]) =
      (0, ["/data".toList]) ∧
    FrozenOnce [sampleMount "/data".toList, sampleMount "/data\rro".toList] := by
  refine ⟨by decide +kernel, (frozenOnce_mounts ?_).2 ?_⟩
  · decide +kernel
  · intro before m after split _ first
    cases before with
    | nil =>
        obtain rfl := (List.cons.inj split).1
        decide +kernel
    | cons other before =>
        cases before with
        | nil =>
            simp only [List.cons_append, List.nil_append, List.cons.injEq] at split
            obtain ⟨rfl, rfl, -⟩ := split
            exact absurd rfl (first (sampleMount "/data".toList) List.mem_cons_self (by decide +kernel))
        | cons second before => simp at split

/-- A writable filesystem that is never frozen: what follows the carriage return is taken for the
mount options. -/
theorem carriageReturn_unfrozen :
    (sampleMount "/data\rro".toList).WellFormed ∧
      toFreeze [sampleMount "/data\rro".toList] = [sampleMount "/data\rro".toList] ∧
      freezeCollect (fun _ => true) (mountinfo [sampleMount "/data\rro".toList]) = (0, []) ∧
      ¬ FrozenOnce [sampleMount "/data\rro".toList] := by
  have first : toFreeze [sampleMount "/data\rro".toList] = [sampleMount "/data\rro".toList] := by
    decide +kernel
  have missed : freezeCollect (fun _ => true) (mountinfo [sampleMount "/data\rro".toList]) =
      (0, []) := by decide +kernel
  refine ⟨by decide +kernel, first, missed, ?_⟩
  intro frozen
  unfold FrozenOnce at frozen
  rw [first, missed] at frozen
  simp [FREEZE_MAX] at frozen

end Kmorph
