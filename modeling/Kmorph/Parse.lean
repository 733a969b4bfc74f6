import Kmorph.Fallible
import Kmorph.Madt
import Kmorph.ParseCore
import Kmorph.Scanning

/-!
What the parsers of `lib/parse.c` accept and what they make of it. A list of CPUs
is described by its grammar, with the closed ranges its items stand for.
-/

namespace Kmorph

open Fallible

/-- Digits of a number below `2 ^ 64`. -/
structure IsNumber (digits : List Char) : Prop where
  found : digits ≠ []
  all : ∀ c ∈ digits, c.isDigit = true
  fits : decimal digits < 2 ^ 64

inductive CpuItem : List Char → ℕ × ℕ → Prop
  | number {digits : List Char} (number : IsNumber digits) :
      CpuItem digits (decimal digits, decimal digits)
  | range {lo hi : List Char} (low : IsNumber lo) (high : IsNumber hi)
      (ordered : decimal lo ≤ decimal hi) : CpuItem (lo ++ '-' :: hi) (decimal lo, decimal hi)

/-- Items separated by commas, one of which may be last, and their ranges. -/
inductive CpuText : List Char → List (ℕ × ℕ) → Prop
  | single {item : List Char} {range : ℕ × ℕ} (isItem : CpuItem item range) : CpuText item [range]
  | trailing {item : List Char} {range : ℕ × ℕ} (isItem : CpuItem item range) :
      CpuText (item ++ [',']) [range]
  | cons {item rest : List Char} {range : ℕ × ℕ} {ranges : List (ℕ × ℕ)}
      (isItem : CpuItem item range) (others : CpuText rest ranges) :
      CpuText (item ++ ',' :: rest) (range :: ranges)

def rangeIds (range : ℕ × ℕ) : List UInt64 :=
  (List.range' range.1 (range.2 + 1 - range.1)).map UInt64.ofNat

theorem mem_rangeIds {range : ℕ × ℕ} (fits : range.2 < 2 ^ 64) (id : UInt64) :
    id ∈ rangeIds range ↔ range.1 ≤ id.toNat ∧ id.toNat ≤ range.2 := by
  simp only [rangeIds, List.mem_map, List.mem_range'_1]
  constructor
  · rintro ⟨n, inside, rfl⟩
    rw [UInt64.toNat_ofNat', Nat.mod_eq_of_lt (by omega)]
    omega
  · intro inside
    exact ⟨id.toNat, by omega, UInt64.ofNat_toNat⟩

section Number

variable {digits rest s : List Char} {v : UInt64}

theorem parseU64Prefix_number (number : IsNumber digits) (stops : Stops Char.isDigit rest) :
    parseU64Prefix (digits ++ rest) = .ok (.ofNat (decimal digits), rest) := by
  have taken := takeWhile_chunk number.all stops
  have left : (digits ++ rest).dropWhile Char.isDigit = rest := by
    have whole := @List.takeWhile_append_dropWhile _ Char.isDigit (digits ++ rest)
    rw [taken] at whole
    exact List.append_cancel_left whole
  have fits := number.fits
  simp only [parseU64Prefix, taken, left, number.found, if_false]
  rw [if_neg (by omega)]

theorem parseU64Prefix_ok (parsed : parseU64Prefix s = .ok (v, rest)) :
    ∃ digits, s = digits ++ rest ∧ IsNumber digits ∧ v = .ofNat (decimal digits) := by
  simp only [parseU64Prefix] at parsed
  split at parsed
  · simp at parsed
  · rename_i found
    split at parsed
    · simp at parsed
    · rename_i fits
      simp only [Except.ok.injEq, Prod.mk.injEq] at parsed
      obtain ⟨rfl, rfl⟩ := parsed
      refine ⟨s.takeWhile Char.isDigit, List.takeWhile_append_dropWhile.symm, ⟨found, ?_, by omega⟩, rfl⟩
      intro c member
      exact (List.mem_takeWhile_imp member)

theorem toNat_number (number : IsNumber digits) : (UInt64.ofNat (decimal digits)).toNat = decimal digits := by
  rw [UInt64.toNat_ofNat', Nat.mod_eq_of_lt number.fits]

end Number

section Item

variable {item rest s : List Char} {range : ℕ × ℕ} {lo hi : UInt64}

theorem CpuItem.bounds (isItem : CpuItem item range) :
    item ≠ [] ∧ range.1 ≤ range.2 ∧ range.2 < 2 ^ 64 := by
  cases isItem with
  | number number => exact ⟨number.found, Nat.le_refl _, number.fits⟩
  | range low high ordered => exact ⟨by simp, ordered, high.fits⟩

theorem parseRange_item (isItem : CpuItem item range)
    (ends : Stops (fun c => c.isDigit || c = '-') rest) :
    parseRange (item ++ rest) = .ok (.ofNat range.1, .ofNat range.2, rest) := by
  have noDigit : Stops Char.isDigit rest := ends.mono fun c digit => by simp [digit]
  have noDash : rest.head? ≠ some '-' := by
    intro dash
    have := ends '-' dash
    simp at this
  cases isItem with
  | number number =>
      simp only [parseRange, parseU64Prefix_number number noDigit, bind, Except.bind, noDash, if_false]
  | @range lo hi low high ordered =>
      have apart : Stops Char.isDigit ('-' :: (hi ++ rest)) := stops_cons (by decide)
      have notBelow : ¬ UInt64.ofNat (decimal hi) < UInt64.ofNat (decimal lo) := by
        rw [UInt64.lt_iff_toNat_lt, toNat_number low, toNat_number high]
        omega
      rw [List.append_assoc, List.cons_append]
      simp only [parseRange, parseU64Prefix_number low apart, parseU64Prefix_number high noDigit, bind,
        Except.bind, List.head?_cons, List.tail_cons, if_true, notBelow, if_false]

theorem parseRange_ok (parsed : parseRange s = .ok (lo, hi, rest)) :
    ∃ item range, s = item ++ rest ∧ CpuItem item range ∧ lo = .ofNat range.1 ∧ hi = .ofNat range.2 := by
  obtain ⟨⟨v, after⟩, first, parsed⟩ := bind_eq_ok.mp parsed
  obtain ⟨low, rfl, lowNumber, rfl⟩ := parseU64Prefix_ok first
  simp only at parsed
  split at parsed
  · rename_i dash
    obtain ⟨⟨w, last⟩, second, parsed⟩ := bind_eq_ok.mp parsed
    obtain ⟨high, tail, highNumber, rfl⟩ := parseU64Prefix_ok second
    simp only at parsed
    split at parsed
    · simp at parsed
    · rename_i notBelow
      cases parsed
      rw [UInt64.lt_iff_toNat_lt, toNat_number lowNumber, toNat_number highNumber] at notBelow
      have split : after = '-' :: (high ++ rest) := by
        rw [← tail]
        exact (List.cons_head?_tail dash).symm
      refine ⟨low ++ '-' :: high, _, ?_, .range lowNumber highNumber (by omega), rfl, rfl⟩
      rw [split, List.append_assoc, List.cons_append]
  · cases parsed
    exact ⟨low, _, rfl, .number lowNumber, rfl, rfl⟩

theorem rangeIds_cons {low high : ℕ} (ordered : low ≤ high) :
    rangeIds (low, high) = .ofNat low :: rangeIds (low + 1, high) := by
  have one : high + 1 - low = (high + 1 - (low + 1)) + 1 := by omega
  simp only [rangeIds]
  rw [one, List.range'_succ, List.map_cons]

theorem rangeIds_empty {low high : ℕ} (empty : high < low) : rangeIds (low, high) = [] := by
  have none : high + 1 - low = 0 := by omega
  simp only [rangeIds]
  rw [none, List.range'_zero, List.map_nil]

theorem pushRange_granted (ordered : lo ≤ hi) (l : Cpulist) :
    (pushRange (fun _ => true) hi lo l).1 = 0 ∧
      (pushRange (fun _ => true) hi lo l).2.ids = l.ids ++ rangeIds (lo.toNat, hi.toNat) := by
  have := hi.toNat_lt
  induction count : hi.toNat - lo.toNat generalizing lo l with
  | zero =>
      have bounded := UInt64.le_iff_toNat_le.mp ordered
      obtain rfl : lo = hi := UInt64.toNat_inj.mp (by omega)
      obtain ⟨ok, added⟩ := cpulistPush_granted l lo
      rw [pushRange, if_neg (not_not.mpr ok), if_pos rfl, rangeIds_cons (Nat.le_refl _),
        rangeIds_empty (Nat.lt_succ_self _), UInt64.ofNat_toNat]
      exact ⟨ok, added⟩
  | succ count ih =>
      obtain ⟨ok, added⟩ := cpulistPush_granted l lo
      have apart : ¬ lo = hi := by
        rintro rfl
        omega
      have next : (lo + 1).toNat = lo.toNat + 1 := by
        rw [UInt64.toNat_add, UInt64.toNat_one]
        omega
      have later := @ih (lo + 1) (UInt64.le_iff_toNat_le.mpr (by omega)) (cpulistPush true l lo).2
        (by omega)
      rw [pushRange, if_neg (not_not.mpr ok), if_neg apart, later.2, added, next,
        @rangeIds_cons lo.toNat hi.toNat (by omega), UInt64.ofNat_toNat, List.append_assoc]
      exact ⟨later.1, rfl⟩

end Item

section Text

variable {item rest s : List Char} {range : ℕ × ℕ} {ranges : List (ℕ × ℕ)}

theorem parseU64Prefix_nil : parseU64Prefix [] = .error (-EINVAL) := rfl

theorem parseU64Prefix_error {ret : Int} (failed : parseU64Prefix s = .error ret) : ret < 0 := by
  simp only [parseU64Prefix] at failed
  split at failed
  · cases failed
    decide
  · split at failed
    · cases failed
      decide
    · simp at failed

theorem parseRange_error {ret : Int} (failed : parseRange s = .error ret) : ret < 0 := by
  simp only [parseRange, bind, Except.bind] at failed
  cases first : parseU64Prefix s with
  | error early =>
      simp only [first, Except.error.injEq] at failed
      exact failed ▸ parseU64Prefix_error first
  | ok number =>
      simp only [first] at failed
      split at failed
      · cases second : parseU64Prefix number.2.tail with
        | error late =>
            simp only [second, Except.error.injEq] at failed
            exact failed ▸ parseU64Prefix_error second
        | ok last =>
            simp only [second] at failed
            split at failed
            · cases failed
              decide
            · simp at failed
      · simp at failed

theorem parseRanges_turn {lo hi : UInt64} (parsed : parseRange s = .ok (lo, hi, rest)) (ordered : lo ≤ hi)
    (l : Cpulist) :
    ∃ l', l'.ids = l.ids ++ rangeIds (lo.toNat, hi.toNat) ∧
      parseRanges (fun _ => true) s l =
        if rest.head? = some ',' then parseRanges (fun _ => true) rest.tail l'
        else if rest ≠ [] then (-EINVAL, [])
        else parseRanges (fun _ => true) rest l' := by
  obtain ⟨ok, ids⟩ := pushRange_granted ordered l
  have found : s ≠ [] := by
    rintro rfl
    simp [parseRange, parseU64Prefix_nil, bind, Except.bind] at parsed
  refine ⟨_, ids, ?_⟩
  rw [parseRanges, if_neg found]
  split
  · rename_i failed
    rw [parsed] at failed
    cases failed
  · rename_i again
    rw [parsed] at again
    cases again
    rw [if_neg (not_not.mpr ok)]

theorem parseRanges_nil (l : Cpulist) :
    parseRanges (fun _ => true) [] l = (0, cpulistNormalize l.ids) := by
  rw [parseRanges, if_pos rfl]

theorem CpuItem.toNat (isItem : CpuItem item range) :
    (UInt64.ofNat range.1).toNat = range.1 ∧ (UInt64.ofNat range.2).toNat = range.2 := by
  obtain ⟨-, ordered, fits⟩ := isItem.bounds
  rw [UInt64.toNat_ofNat', UInt64.toNat_ofNat', Nat.mod_eq_of_lt (by omega), Nat.mod_eq_of_lt fits]
  exact ⟨rfl, rfl⟩

theorem CpuItem.ordered (isItem : CpuItem item range) : UInt64.ofNat range.1 ≤ .ofNat range.2 := by
  rw [UInt64.le_iff_toNat_le, isItem.toNat.1, isItem.toNat.2]
  exact isItem.bounds.2.1

theorem parseRanges_comma (isItem : CpuItem item range) (rest : List Char) (l : Cpulist) :
    ∃ l', l'.ids = l.ids ++ rangeIds range ∧
      parseRanges (fun _ => true) (item ++ ',' :: rest) l = parseRanges (fun _ => true) rest l' := by
  obtain ⟨l', ids, turn⟩ := parseRanges_turn
    (@parseRange_item item (',' :: rest) range isItem (stops_cons (by decide))) isItem.ordered l
  rw [isItem.toNat.1, isItem.toNat.2] at ids
  exact ⟨l', ids, turn⟩

theorem parseRanges_text (isText : CpuText s ranges) (l : Cpulist) :
    parseRanges (fun _ => true) s l = (0, cpulistNormalize (l.ids ++ ranges.flatMap rangeIds)) := by
  induction isText generalizing l with
  | @single item range isItem =>
      obtain ⟨l', ids, turn⟩ := parseRanges_turn (parseRange_item isItem (stops_nil _)) isItem.ordered l
      rw [List.append_nil, List.head?_nil, if_neg (by simp), if_neg (by simp), parseRanges_nil, ids,
        isItem.toNat.1, isItem.toNat.2] at turn
      rw [turn, List.flatMap_cons, List.flatMap_nil, List.append_nil]
  | @trailing item range isItem =>
      obtain ⟨l', ids, turn⟩ := parseRanges_comma isItem [] l
      rw [turn, parseRanges_nil, ids, List.flatMap_cons, List.flatMap_nil, List.append_nil]
  | @cons item rest range ranges isItem others ih =>
      obtain ⟨l', ids, turn⟩ := parseRanges_comma isItem rest l
      rw [turn, ih, ids, List.flatMap_cons, List.append_assoc]

/-- What the loop does not take is not a list. -/
theorem parseRanges_refused (found : s ≠ []) (l : Cpulist) :
    (∃ ranges, CpuText s ranges) ∨
      (parseRanges (fun _ => true) s l).1 < 0 ∧ (parseRanges (fun _ => true) s l).2 = [] := by
  induction size : s.length using Nat.strong_induction_on generalizing s l with
  | _ size ih =>
      cases parsed : parseRange s with
      | error ret =>
          have negative := parseRange_error parsed
          right
          rw [parseRanges, if_neg found]
          split
          · rename_i again
            rw [parsed] at again
            cases again
            exact ⟨negative, rfl⟩
          · rename_i other
            rw [parsed] at other
            cases other
      | ok item =>
          obtain ⟨lo, hi, rest⟩ := item
          obtain ⟨item, range, rfl, isItem, rfl, rfl⟩ := parseRange_ok parsed
          have shorter := parseRange_length parsed
          obtain ⟨l', -, turn⟩ := parseRanges_turn parsed isItem.ordered l
          cases rest with
          | nil =>
              rw [List.append_nil]
              exact Or.inl ⟨_, .single isItem⟩
          | cons c rest =>
              by_cases comma : c = ','
              · subst comma
                by_cases last : rest = []
                · rw [last]
                  exact Or.inl ⟨_, .trailing isItem⟩
                · rw [List.head?_cons, if_pos rfl, List.tail_cons] at turn
                  rw [turn]
                  rw [List.length_cons] at shorter
                  rcases ih rest.length (by omega) last l' rfl with ⟨ranges, others⟩ | refused
                  · exact Or.inl ⟨_, .cons isItem others⟩
                  · exact Or.inr refused
              · rw [List.head?_cons, if_neg (by simpa using comma), if_pos (by simp)] at turn
                rw [turn]
                exact Or.inr ⟨by decide, rfl⟩

theorem CpuText.found (isText : CpuText s ranges) : s ≠ [] := by
  cases isText with
  | single isItem => exact isItem.bounds.1
  | trailing isItem => simp
  | cons isItem others => simp

theorem CpuText.fits (isText : CpuText s ranges) : ∀ range ∈ ranges, range.2 < 2 ^ 64 := by
  induction isText with
  | single isItem =>
      intro range member
      obtain rfl := List.mem_singleton.mp member
      exact isItem.bounds.2.2
  | trailing isItem =>
      intro range member
      obtain rfl := List.mem_singleton.mp member
      exact isItem.bounds.2.2
  | cons isItem others ih => exact List.forall_mem_cons.mpr ⟨isItem.bounds.2.2, ih⟩

theorem mem_parseCpulist (isText : CpuText s ranges) (id : UInt64) :
    id ∈ (parseCpulist (fun _ => true) s).2 ↔
      ∃ range ∈ ranges, range.1 ≤ id.toNat ∧ id.toNat ≤ range.2 := by
  rw [parseCpulist, if_neg isText.found, parseRanges_text isText, (cpulistNormalize_sorted _).2,
    List.nil_append, List.mem_flatMap]
  refine exists_congr fun range => and_congr_right fun member => ?_
  exact mem_rangeIds (isText.fits range member) id

theorem parseCpulist_refused (other : ¬ ∃ ranges, CpuText s ranges) :
    (parseCpulist (fun _ => true) s).1 < 0 ∧ (parseCpulist (fun _ => true) s).2 = [] := by
  by_cases empty : s = []
  · rw [parseCpulist, if_pos empty]
    exact ⟨by decide, rfl⟩
  · rw [parseCpulist, if_neg empty]
    exact (parseRanges_refused empty _).resolve_left other

theorem parseCpulist_sorted : (parseCpulist (fun _ => true) s).2.Pairwise (· < ·) := by
  by_cases text : ∃ ranges, CpuText s ranges
  · obtain ⟨ranges, isText⟩ := text
    rw [parseCpulist, if_neg isText.found, parseRanges_text isText]
    exact (cpulistNormalize_sorted _).1
  · rw [(parseCpulist_refused text).2]
    exact List.Pairwise.nil

end Text

/-- The texts that are accepted are those of the grammar, and the list is what they say. -/
theorem parseCpulist_exact (s : List Char) :
    ((parseCpulist (fun _ => true) s).1 = 0 ↔ ∃ ranges, CpuText s ranges) ∧
      (∀ ranges, CpuText s ranges →
        (parseCpulist (fun _ => true) s).2.Pairwise (· < ·) ∧
        ∀ id, id ∈ (parseCpulist (fun _ => true) s).2 ↔
          ∃ range ∈ ranges, range.1 ≤ id.toNat ∧ id.toNat ≤ range.2) ∧
      ((¬ ∃ ranges, CpuText s ranges) →
        (parseCpulist (fun _ => true) s).1 < 0 ∧ (parseCpulist (fun _ => true) s).2 = []) := by
  refine ⟨⟨?_, ?_⟩, ?_, parseCpulist_refused⟩
  · intro accepted
    by_contra other
    have := (parseCpulist_refused other).1
    omega
  · rintro ⟨ranges, isText⟩
    rw [parseCpulist, if_neg isText.found, parseRanges_text isText]
  · intro ranges isText
    exact ⟨parseCpulist_sorted, mem_parseCpulist isText⟩

/-- A range and a number, with a comma behind them. -/
theorem parseCpulist_exact_trailing :
    CpuText "1-3,8,".toList [(1, 3), (8, 8)] ∧ (parseCpulist (fun _ => true) "1-3,8,".toList).1 = 0 ∧
      2 ∈ (parseCpulist (fun _ => true) "1-3,8,".toList).2 ∧ 4 ∉ (parseCpulist (fun _ => true) "1-3,8,".toList).2 ∧
      (parseCpulist (fun _ => true) "3-1".toList).1 < 0 := by
  have number {digit : Char} (isDigit : digit.isDigit = true) (fits : decimal [digit] < 2 ^ 64) : IsNumber [digit] :=
    ⟨List.cons_ne_nil _ _, List.forall_mem_singleton.mpr isDigit, fits⟩
  have text : CpuText "1-3,8,".toList [(1, 3), (8, 8)] :=
    .cons (.range (number rfl (by decide)) (number rfl (by decide)) (by decide))
      (.trailing (.number (number rfl (by decide))))
  obtain ⟨accepts, lists, -⟩ := parseCpulist_exact "1-3,8,".toList
  have ids := (lists _ text).2
  refine ⟨text, accepts.mpr ⟨_, text⟩, (ids 2).mpr ⟨(1, 3), by decide⟩, fun four => ?_, ?_⟩
  · obtain ⟨range, member, low, high⟩ := (ids 4).mp four
    simp only [List.mem_cons, List.not_mem_nil, or_false] at member
    rcases member with rfl | rfl
    · exact absurd high (by decide)
    · exact absurd low (by decide)
  · have other : ¬ ∃ ranges, CpuText "3-1".toList ranges :=
      fun isText => absurd ((parseCpulist_exact "3-1".toList).1.mpr isText) (by decide +kernel)
    exact ((parseCpulist_exact "3-1".toList).2.2 other).1

section Words

/-- What a list of names holds. -/
structure IsItem (item : List Char) : Prop where
  found : item ≠ []
  comma : ',' ∉ item
  start : ∀ c ∈ item.head?, isSpace c = false
  ends : ∀ c ∈ item.getLast?, isSpace c = false

theorem getLast_trimEnd {s : List Char} : ∀ c ∈ (trimEnd s).getLast?, isSpace c = false := by
  intro c last
  rw [trimEnd, List.getLast?_reverse] at last
  exact dropWhile_stops _ c last

theorem trimEnd_isPrefix (s : List Char) : trimEnd s <+: s := by
  rw [trimEnd, ← List.reverse_suffix, List.reverse_reverse]
  exact List.dropWhile_suffix _

theorem isItem_word {p : List Char} (found : trimEnd ((p.dropWhile isSpace).takeWhile (· ≠ ',')) ≠ []) :
    IsItem (trimEnd ((p.dropWhile isSpace).takeWhile (· ≠ ','))) := by
  refine ⟨found, ?_, ?_, getLast_trimEnd⟩
  · intro comma
    have := List.mem_takeWhile_imp ((trimEnd_isPrefix _).subset comma)
    simp at this
  · intro c first
    obtain ⟨others, whole⟩ := (trimEnd_isPrefix _).trans
      (List.takeWhile_prefix (l := p.dropWhile isSpace) (· ≠ ','))
    apply dropWhile_stops p c
    rw [← whole, List.head?_append]
    exact Option.mem_def.mpr (by rw [Option.mem_def.mp first, Option.some_or])

theorem parseWords_items {granted : ℕ → Bool} {p : List Char} {items : List (List Char)}
    (before : ∀ item ∈ items, IsItem item) : ∀ item ∈ (parseWords granted p items).2, IsItem item := by
  fun_induction parseWords granted p items with
  | case1 items => exact before
  | case2 => simp
  | case3 p items nonempty start item found granted ih =>
      apply ih
      intro word member
      rcases List.mem_append.mp member with earlier | new
      · exact before word earlier
      · rw [List.mem_singleton.mp new]
        exact isItem_word found
  | case4 => simp

theorem parseStrlist_items {granted : ℕ → Bool} {s : List Char} :
    ∀ item ∈ (parseStrlist granted s).2, IsItem item := by
  rw [parseStrlist]
  split
  · simp
  · apply parseWords_items
    simp

end Words

section Durations

theorem parseU64Prefix_value {s unit : List Char} {v : UInt64} (parsed : parseU64Prefix s = .ok (v, unit)) :
    v.toNat = decimal (s.takeWhile Char.isDigit) := by
  simp only [parseU64Prefix] at parsed
  split at parsed
  · cases parsed
  · split at parsed
    · cases parsed
    · cases parsed
      rw [UInt64.toNat_ofNat', Nat.mod_eq_of_lt (by omega)]

theorem durationScale_pos {unit : List Char} {scale : UInt64} (known : durationScale unit = some scale) :
    0 < scale.toNat := by
  rw [durationScale] at known
  split at known
  · cases known
    decide
  · split at known
    · cases known
      decide
    · split at known
      · cases known
        decide
      · cases known

theorem parseDurationMs_eq_zero {s : List Char} {ms : UInt64} (parsed : parseDurationMs s = .ok ms) :
    ms = 0 ↔ decimal (s.takeWhile Char.isDigit) = 0 := by
  obtain ⟨⟨v, unit⟩, first, parsed⟩ := bind_eq_ok.mp parsed
  rw [← parseU64Prefix_value first]
  cases known : durationScale unit with
  | none => simp [known] at parsed
  | some scale =>
      have positive := durationScale_pos known
      simp only [known] at parsed
      split at parsed
      · cases parsed
      · rename_i fits
        cases parsed
        have bound : v.toNat * scale.toNat ≤ 2 ^ 64 - 1 :=
          (Nat.le_div_iff_mul_le positive).mp (Nat.le_of_not_lt fits)
        rw [← UInt64.toNat_inj, UInt64.toNat_mul, Nat.mod_eq_of_lt (by omega), UInt64.toNat_zero,
          Nat.mul_eq_zero]
        omega

end Durations

/-! The sizes and durations that are accepted, as numbers with a unit, and their exact values. -/

/-- A decimal number with a unit behind it, and how many of the smallest unit that is. -/
def Measures (unit : List Char → ℕ → Prop) (s : List Char) (n : ℕ) : Prop :=
  ∃ digits suffix factor, s = digits ++ suffix ∧ digits ≠ [] ∧ (∀ c ∈ digits, c.isDigit = true) ∧
    unit suffix factor ∧ n = decimal digits * factor

def sizeLetters : List (Char × ℕ) := [('K', 10), ('M', 20), ('G', 30), ('T', 40)]

/-- Nothing, or a letter in either case with one of the endings. -/
inductive SizeUnit (endings : List (List Char)) : List Char → ℕ → Prop
  | bytes : SizeUnit endings [] 1
  | binary {upper letter : Char} {exponent : ℕ} {ending : List Char}
      (known : (upper, exponent) ∈ sizeLetters) (either : letter = upper ∨ letter = upper.toLower)
      (ends : ending ∈ endings) :
      SizeUnit endings (letter :: ending) (2 ^ exponent)

inductive DurationUnit : List Char → ℕ → Prop
  | plain : DurationUnit [] 1
  | milliseconds : DurationUnit ['m', 's'] 1
  | seconds : DurationUnit ['s'] 1000
  | minutes : DurationUnit ['m'] (60 * 1000)

/-- A parser that accepts the texts of numbers below `2 ^ 64`, stores the number and otherwise
leaves the destination as it was. -/
structure ReadsExactly (measures : List Char → ℕ → Prop) (parse : List Char → UInt64 → Int × UInt64) :
    Prop where
  accepts : ∀ s dst, (parse s dst).1 = 0 ↔ ∃ n < 2 ^ 64, measures s n
  stores : ∀ s dst n, (parse s dst).1 = 0 → measures s n → (parse s dst).2.toNat = n
  leaves : ∀ s dst, (parse s dst).1 ≠ 0 → (parse s dst).2 = dst

section Units

variable {s suffix ending : List Char} {letter : Char} {n factor shift : ℕ} {v dst : UInt64}

theorem toUpper_eq_iff {c upper : Char} (isUpper : upper.isUpper = true) :
    c.toUpper = upper ↔ c = upper ∨ c = upper.toLower := by
  have bounds : 'A'.val ≤ upper.val ∧ upper.val ≤ 'Z'.val := by
    delta Char.isUpper at isUpper
    simpa using isUpper
  delta Char.toUpper Char.toLower
  rw [dif_pos bounds]
  have bounds : 65 ≤ upper.val.toNat ∧ upper.val.toNat ≤ 90 := bounds
  split
  · rename_i lower
    have lower : 97 ≤ c.val.toNat ∧ c.val.toNat ≤ 122 := lower
    simp only [Char.ext_iff, ← UInt32.toNat_inj, UInt32.toNat_add, UInt32.toNat_sub, Char.reduceVal,
      UInt32.reduceToNat]
    omega
  · rename_i other
    have other : ¬ (97 ≤ c.val.toNat ∧ c.val.toNat ≤ 122) := other
    simp only [Char.ext_iff, ← UInt32.toNat_inj, UInt32.toNat_add, UInt32.toNat_sub, Char.reduceVal,
      UInt32.reduceToNat]
    omega

theorem sizeLetters_pos {upper : Char} (known : (upper, shift) ∈ sizeLetters) : shift ≠ 0 := by
  simp only [sizeLetters, List.mem_cons, Prod.mk.injEq, List.not_mem_nil, or_false] at known
  omega

theorem sizeLetters_noDigit {upper : Char} (known : (upper, shift) ∈ sizeLetters)
    (either : letter = upper ∨ letter = upper.toLower) : letter.isDigit = false := by
  simp only [sizeLetters, List.mem_cons, Prod.mk.injEq, List.not_mem_nil, or_false] at known
  rcases known with ⟨rfl, rfl⟩ | ⟨rfl, rfl⟩ | ⟨rfl, rfl⟩ | ⟨rfl, rfl⟩ <;>
    rcases either with rfl | rfl <;> rfl

theorem sizeShift_cons :
    sizeShift (letter :: ending) = some shift ↔
      ∃ upper, (upper, shift) ∈ sizeLetters ∧ (letter = upper ∨ letter = upper.toLower) := by
  have either (upper : Char) (isUpper : upper.isUpper = true) :
      (letter = upper ∨ letter = upper.toLower) ↔ letter.toUpper = upper := (toUpper_eq_iff isUpper).symm
  simp only [sizeLetters, List.mem_cons, Prod.mk.injEq, List.not_mem_nil, or_false, or_and_right,
    exists_or, and_assoc, exists_eq_left, either 'K' rfl, either 'M' rfl, either 'G' rfl, either 'T' rfl]
  simp only [sizeShift, List.head?_cons, Option.map_some, reduceCtorEq, if_false, Option.some.injEq]
  by_cases kilo : letter.toUpper = 'K'
  · simp [kilo, eq_comm]
  · by_cases mega : letter.toUpper = 'M'
    · simp [mega, eq_comm]
    · by_cases giga : letter.toUpper = 'G'
      · simp [giga, eq_comm]
      · by_cases tera : letter.toUpper = 'T'
        · simp [tera, eq_comm]
        · simp [kilo, mega, giga, tera]

theorem skipUnit_cons (positive : shift ≠ 0) :
    skipUnit shift (letter :: ending) = [] ↔ ending ∈ [[], ['B'], ['b']] := by
  rw [skipUnit, if_neg positive, List.tail_cons]
  cases ending with
  | nil => simp
  | cons c rest =>
      simp only [List.head?_cons, Option.map_some, Option.some.injEq, List.tail_cons,
        @toUpper_eq_iff c 'B' rfl]
      split
      · rename_i either
        rcases either with rfl | rfl <;> simp
      · rename_i neither
        rw [not_or] at neither
        constructor
        · intro nothing
          cases nothing
        · intro member
          simp only [List.mem_cons, reduceCtorEq, List.cons.injEq, List.not_mem_nil, or_false,
            false_or] at member
          rcases member with ⟨capital, _⟩ | ⟨small, _⟩
          · exact absurd capital neither.1
          · exact absurd small neither.2

theorem sizeUnit_iff :
    SizeUnit [[], ['B'], ['b']] suffix factor ↔
      ∃ shift, sizeShift suffix = some shift ∧ skipUnit shift suffix = [] ∧ factor = 2 ^ shift := by
  constructor
  · rintro (_ | ⟨known, either, ends⟩)
    · exact ⟨0, rfl, rfl, rfl⟩
    · exact ⟨_, sizeShift_cons.mpr ⟨_, known, either⟩,
        (skipUnit_cons (sizeLetters_pos known)).mpr ends, rfl⟩
  · rintro ⟨shift, found, nothing, rfl⟩
    cases suffix with
    | nil =>
        cases found
        exact .bytes
    | cons letter ending =>
        obtain ⟨upper, known, either⟩ := sizeShift_cons.mp found
        exact .binary known either ((skipUnit_cons (sizeLetters_pos known)).mp nothing)

theorem SizeUnit.stops {endings : List (List Char)} (unit : SizeUnit endings suffix factor) :
    Stops Char.isDigit suffix := by
  cases unit with
  | bytes => exact stops_nil _
  | binary known either _ => exact stops_cons (sizeLetters_noDigit known either)

theorem durationUnit_iff :
    DurationUnit suffix factor ↔ ∃ scale, durationScale suffix = some scale ∧ factor = scale.toNat := by
  constructor
  · rintro (_ | _ | _ | _) <;> exact ⟨_, rfl, rfl⟩
  · rintro ⟨scale, known, rfl⟩
    rw [durationScale] at known
    split at known
    · rename_i either
      cases known
      rcases either with rfl | rfl
      · exact .plain
      · exact .milliseconds
    · split at known
      · rename_i seconds
        cases known
        exact seconds ▸ .seconds
      · split at known
        · rename_i minutes
          cases known
          exact minutes ▸ .minutes
        · cases known

/-- What a parser that reads a number and scales it by its unit keeps to. -/
structure Scales (unit : List Char → ℕ → Prop) (parse : List Char → UInt64 → Int × UInt64) : Prop where
  stops : ∀ {suffix factor}, unit suffix factor → Stops Char.isDigit suffix
  positive : ∀ {suffix factor}, unit suffix factor → 0 < factor
  functional : ∀ {suffix factor other}, unit suffix factor → unit suffix other → factor = other
  refuses : ∀ {s ret dst}, parseU64Prefix s = .error ret → parse s dst = (ret, dst)
  scales : ∀ {s v suffix factor dst}, parseU64Prefix s = .ok (v, suffix) → unit suffix factor →
    v.toNat * factor < 2 ^ 64 → parse s dst = (0, .ofNat (v.toNat * factor))
  otherwise : ∀ {s v suffix dst}, parseU64Prefix s = .ok (v, suffix) →
    (∀ factor, unit suffix factor → 2 ^ 64 ≤ v.toNat * factor) →
    (parse s dst).1 < 0 ∧ (parse s dst).2 = dst

section Scaling

variable {unit : List Char → ℕ → Prop} {parse : List Char → UInt64 → Int × UInt64} {m : ℕ}

theorem Scales.measures_unique (exact : Scales unit parse) (one : Measures unit s n)
    (two : Measures unit s m) : n = m := by
  obtain ⟨digits, suffix, factor, rfl, _, all, known, rfl⟩ := one
  obtain ⟨digits', suffix', factor', split, _, all', known', rfl⟩ := two
  have sameDigits : digits = digits' := by
    rw [← takeWhile_chunk all (exact.stops known), split, takeWhile_chunk all' (exact.stops known')]
  subst sameDigits
  obtain rfl := List.append_cancel_left split
  rw [exact.functional known known']

theorem Scales.parse_measures (exact : Scales unit parse) (measured : Measures unit s n)
    (fits : n < 2 ^ 64) : parse s dst = (0, .ofNat n) := by
  obtain ⟨digits, suffix, factor, rfl, found, all, known, rfl⟩ := measured
  have smaller : decimal digits ≤ decimal digits * factor :=
    Nat.le_mul_of_pos_right _ (exact.positive known)
  have number : IsNumber digits := ⟨found, all, by omega⟩
  have read := parseU64Prefix_number number (exact.stops known)
  rw [exact.scales read known (by rw [toNat_number number]; exact fits), toNat_number number]

/-- Success or failure of the number, and then of its unit and product. -/
theorem Scales.parse_cases (exact : Scales unit parse) (s : List Char) (dst : UInt64) :
    (∃ n < 2 ^ 64, Measures unit s n) ∨ (parse s dst).1 < 0 ∧ (parse s dst).2 = dst := by
  cases read : parseU64Prefix s with
  | error ret =>
      rw [exact.refuses read]
      exact .inr ⟨parseU64Prefix_error read, rfl⟩
  | ok number =>
      by_cases accepted : ∃ factor, unit number.2 factor ∧ number.1.toNat * factor < 2 ^ 64
      · obtain ⟨factor, known, fits⟩ := accepted
        obtain ⟨digits, split, isNumber, value⟩ := parseU64Prefix_ok read
        rw [value, toNat_number isNumber] at fits
        exact .inl ⟨_, fits, digits, number.2, factor, split, isNumber.found, isNumber.all, known, rfl⟩
      · right
        apply exact.otherwise read
        intro factor known
        by_contra less
        exact accepted ⟨factor, known, Nat.lt_of_not_le less⟩

theorem Scales.readsExactly (exact : Scales unit parse) : ReadsExactly (Measures unit) parse where
  accepts s dst := by
    constructor
    · intro success
      rcases exact.parse_cases s dst with measured | failed
      · exact measured
      · omega
    · rintro ⟨n, fits, measured⟩
      rw [exact.parse_measures measured fits]
  stores s dst n success measured := by
    rcases exact.parse_cases s dst with ⟨m, fits, other⟩ | failed
    · obtain rfl := exact.measures_unique measured other
      rw [exact.parse_measures measured fits, UInt64.toNat_ofNat', Nat.mod_eq_of_lt fits]
    · omega
  leaves s dst failed := by
    rcases exact.parse_cases s dst with ⟨n, fits, measured⟩ | unchanged
    · exact absurd (by rw [exact.parse_measures measured fits]) failed
    · exact unchanged.2

end Scaling

theorem sizeShift_lt (found : sizeShift suffix = some shift) : shift < 64 := by
  cases suffix with
  | nil =>
      cases found
      decide
  | cons letter ending =>
      obtain ⟨upper, known, _⟩ := sizeShift_cons.mp found
      simp only [sizeLetters, List.mem_cons, Prod.mk.injEq, List.not_mem_nil, or_false] at known
      omega

theorem shiftLeft_eq_mul (v : UInt64) (small : shift < 64) :
    v <<< .ofNat shift = .ofNat (v.toNat * 2 ^ shift) := by
  rw [← UInt64.toNat_inj, UInt64.toNat_shiftLeft, UInt64.toNat_ofNat', UInt64.toNat_ofNat',
    Nat.mod_eq_of_lt (by omega : shift < 2 ^ 64), Nat.mod_eq_of_lt small, Nat.shiftLeft_eq]

/-- The guard `v > (UINT64_MAX >> shift)` is the overflow of the product. -/
theorem shifted_iff (v shift : ℕ) : v > (2 ^ 64 - 1) >>> shift ↔ 2 ^ 64 ≤ v * 2 ^ shift := by
  rw [Nat.shiftRight_eq_div_pow, gt_iff_lt, Nat.div_lt_iff_lt_mul (Nat.two_pow_pos shift)]
  omega

theorem parseSizeInto_scales : Scales (SizeUnit [[], ['B'], ['b']]) parseSizeInto where
  stops := SizeUnit.stops
  positive known := by
    obtain ⟨shift, _, _, rfl⟩ := sizeUnit_iff.mp known
    exact Nat.two_pow_pos shift
  functional known other := by
    obtain ⟨shift, found, _, rfl⟩ := sizeUnit_iff.mp known
    obtain ⟨shift', found', _, rfl⟩ := sizeUnit_iff.mp other
    rw [found] at found'
    cases found'
    rfl
  refuses read := by
    rw [parseSizeInto, parseSize, read]
    rfl
  scales read known fits := by
    obtain ⟨shift, found, nothing, rfl⟩ := sizeUnit_iff.mp known
    have noOverflow := mt (shifted_iff _ _).mp (Nat.not_le_of_lt fits)
    simp only [parseSizeInto, parseSize, bind, Except.bind, read, found, nothing, ne_eq, not_true, if_false, noOverflow,
      and_false, stored]
    rw [shiftLeft_eq_mul _ (sizeShift_lt found)]
  otherwise {s v suffix dst} read overflows := by
    have invalid : -EINVAL < 0 := by decide
    have range : -ERANGE < 0 := by decide
    simp only [parseSizeInto, parseSize, bind, Except.bind, read]
    split
    · exact ⟨invalid, rfl⟩
    · rename_i shift found
      split
      · exact ⟨invalid, rfl⟩
      · rename_i nothing
        split
        · exact ⟨range, rfl⟩
        · rename_i fits
          have product := overflows _ (sizeUnit_iff.mpr ⟨shift, found, not_not.mp nothing, rfl⟩)
          -- A shift of 0 is not checked, and a number read fits without one.
          have below := v.toNat_lt
          rw [not_and, shifted_iff] at fits
          refine absurd product (fits ?_)
          rintro rfl
          omega

theorem parseDurationMsInto_scales : Scales DurationUnit parseDurationMsInto where
  stops known := by
    cases known with
    | plain => exact stops_nil _
    | milliseconds | seconds | minutes => exact stops_cons rfl
  positive known := by
    obtain ⟨scale, found, rfl⟩ := durationUnit_iff.mp known
    exact durationScale_pos found
  functional known other := by
    obtain ⟨scale, found, rfl⟩ := durationUnit_iff.mp known
    obtain ⟨scale', found', rfl⟩ := durationUnit_iff.mp other
    rw [found] at found'
    cases found'
    rfl
  refuses read := by
    rw [parseDurationMsInto, parseDurationMs, read]
    rfl
  scales read known fits := by
    obtain ⟨scale, found, rfl⟩ := durationUnit_iff.mp known
    have bound := (Nat.le_div_iff_mul_le (durationScale_pos found)).mpr (Nat.le_sub_one_of_lt fits)
    simp only [parseDurationMsInto, parseDurationMs, bind, Except.bind, read, found, gt_iff_lt, Nat.not_lt_of_le bound,
      if_false, stored]
    rw [UInt64.ofNat_mul, UInt64.ofNat_toNat, UInt64.ofNat_toNat]
  otherwise {s v suffix dst} read overflows := by
    have invalid : -EINVAL < 0 := by decide
    have range : -ERANGE < 0 := by decide
    simp only [parseDurationMsInto, parseDurationMs, bind, Except.bind, read]
    split
    · exact ⟨invalid, rfl⟩
    · rename_i scale found
      split
      · exact ⟨range, rfl⟩
      · rename_i fits
        have product := overflows _ (durationUnit_iff.mpr ⟨scale, found, rfl⟩)
        have bound := (Nat.le_div_iff_mul_le (durationScale_pos found)).mp (Nat.le_of_not_lt fits)
        omega

/-- Sizes take a letter in either case and behind it a `B` in either case; durations take `ms`, `s`
and `m`. Both are exact up to the top of the 64-bit range. -/
theorem parse_units_exact :
    ReadsExactly (Measures (SizeUnit [[], ['B'], ['b']])) parseSizeInto ∧
      ReadsExactly (Measures DurationUnit) parseDurationMsInto :=
  ⟨parseSizeInto_scales.readsExactly, parseDurationMsInto_scales.readsExactly⟩

/-- With a capital `B` only the sizes above would not be all. -/
theorem parseSizeInto_kb :
    parseSizeInto ['1', 'k', 'b'] 0 = (0, 1024) ∧
      ¬ ∃ n, Measures (SizeUnit [[], ['B']]) ['1', 'k', 'b'] n := by
  refine ⟨rfl, ?_⟩
  rintro ⟨n, digits, suffix, factor, split, _, all, unit, _⟩
  have number : digits = ['1'] := by
    rw [← takeWhile_chunk all unit.stops, ← split]
    rfl
  rw [number, List.singleton_append, List.cons.injEq] at split
  obtain ⟨_, rfl⟩ := split
  cases unit with
  | binary _ _ ends => simp at ends

end Units

end Kmorph
