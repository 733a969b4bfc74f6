import Kmorph.RangesCore
import Kmorph.SpanSets
import Mathlib.Algebra.GroupWithZero.Nat

/-!
The rangeset operations denote set operations on addresses and keep the normal
form. Each operation is shown to make the edit of `SpanSets` on the spans of the
array; order, gaps and covers then come from there.
-/

namespace Kmorph

open SpanSets

def Range.span (r : Range) : Span ℕ := (r.base.toNat, r.base.toNat + r.size.toNat)

def spans (ranges : List Range) : List (Span ℕ) := ranges.map Range.span

/-- The addresses an array of ranges denotes. -/
def addresses (ranges : List Range) : Set ℕ := cover (spans ranges)

/-- The invariant of `struct rangeset`: sorted, non-overlapping, non-adjacent. -/
structure Normal (ranges : List Range) : Prop where
  nonempty : ∀ r ∈ ranges, 0 < r.size.toNat
  noWrap : ∀ r ∈ ranges, r.base.toNat + r.size.toNat < 2 ^ 64
  apart : ranges.Pairwise fun first second =>
    first.base.toNat + first.size.toNat < second.base.toNat

@[simp] theorem spans_nil : spans [] = [] := rfl

@[simp] theorem spans_cons (r : Range) (rest : List Range) :
    spans (r :: rest) = r.span :: spans rest := rfl

@[simp] theorem spans_append (first second : List Range) :
    spans (first ++ second) = spans first ++ spans second := by
  simp [spans]

theorem normal_nil : Normal [] := ⟨by simp, by simp, by simp⟩

theorem normal_iff (ranges : List Range) :
    Normal ranges ↔ Separated (spans ranges) ∧ ∀ span ∈ spans ranges, span.2 < 2 ^ 64 := by
  constructor
  · intro normal
    refine ⟨⟨?_, ?_⟩, ?_⟩
    · simpa [spans, Range.span] using normal.nonempty
    · simpa [spans, Range.span, List.pairwise_map] using normal.apart
    · simpa [spans, Range.span] using normal.noWrap
  · rintro ⟨⟨nonempty, apart⟩, noWrap⟩
    refine ⟨?_, ?_, ?_⟩
    · simpa [spans, Range.span] using nonempty
    · simpa [spans, Range.span] using noWrap
    · simpa [spans, Range.span, List.pairwise_map] using apart

theorem Normal.separated {ranges : List Range} (normal : Normal ranges) :
    Separated (spans ranges) :=
  ((normal_iff ranges).mp normal).1

theorem span_injective : Function.Injective Range.span := by
  rintro ⟨base, size⟩ ⟨base', size'⟩ same
  simp only [Range.span, Prod.mk.injEq] at same
  have sameBase : base = base' := UInt64.toNat_inj.mp same.1
  have sameSize : size = size' := UInt64.toNat_inj.mp (by omega)
  rw [sameBase, sameSize]

theorem Normal.eq_of_addresses_eq {first second : List Range} (firstNormal : Normal first)
    (secondNormal : Normal second) (same : addresses first = addresses second) :
    first = second := by
  have sameSpans := firstNormal.separated.eq_of_cover_eq secondNormal.separated same
  exact (List.map_inj_right fun _ _ same => span_injective same).mp sameSpans

theorem rangeEnd_toNat {r : Range} (noWrap : r.base.toNat + r.size.toNat < 2 ^ 64) :
    (rangeEnd r).toNat = r.base.toNat + r.size.toNat := by
  rw [rangeEnd, UInt64.toNat_add]
  omega

theorem span_of_ends {base stop : UInt64} (ordered : base.toNat ≤ stop.toNat) :
    Range.span ⟨base, stop - base⟩ = (base.toNat, stop.toNat) := by
  have difference : (stop - base).toNat = stop.toNat - base.toNat :=
    UInt64.toNat_sub_of_le _ _ (UInt64.le_iff_toNat_le.mpr ordered)
  simp only [Range.span, difference, Prod.mk.injEq, true_and]
  omega

theorem argument_valid_iff (base size : UInt64) :
    ¬(size = 0 ∨ base + size < base) ↔ 0 < size.toNat ∧ base.toNat + size.toNat < 2 ^ 64 := by
  have zero : size = 0 ↔ size.toNat = 0 := UInt64.toNat_inj.symm
  have baseBound := base.toNat_lt
  have sizeBound := size.toNat_lt
  rw [zero, UInt64.lt_iff_toNat_lt, UInt64.toNat_add]
  omega

theorem argument_invalid {base size : UInt64}
    (invalid : size.toNat = 0 ∨ 2 ^ 64 ≤ base.toNat + size.toNat) :
    size = 0 ∨ base + size < base := by
  by_contra valid
  have := (argument_valid_iff base size).mp valid
  omega

theorem argument_valid_of_accepted {base size : UInt64} {s : Rangeset} {result : Int × Rangeset}
    (rejects : size.toNat = 0 ∨ 2 ^ 64 ≤ base.toNat + size.toNat → result = (-EINVAL, s))
    (accepted : result.1 = 0) : 0 < size.toNat ∧ base.toNat + size.toNat < 2 ^ 64 := by
  by_contra bad
  rw [rejects (by omega)] at accepted
  simp [EINVAL] at accepted

theorem rangesetInsert_result (grown : Bool) (s : Rangeset) (index : Nat) (base size : UInt64) :
    (rangesetInsert grown s index base size).1 = 0 ∨
      (rangesetInsert grown s index base size).1 = -ENOMEM ∧ grown = false := by
  unfold rangesetInsert
  split
  · split <;> simp_all
  · simp

theorem rangesetInsert_ranges {grown : Bool} {s : Rangeset} {index : Nat} {base size : UInt64}
    (inserted : (rangesetInsert grown s index base size).1 = 0) :
    (rangesetInsert grown s index base size).2.r = s.r.insertIdx index ⟨base, size⟩ := by
  unfold rangesetInsert at inserted ⊢
  split
  · split
    · rfl
    · simp_all [ENOMEM]
  · rfl

theorem rangesetInsert_failed {grown : Bool} {s : Rangeset} {index : Nat} {base size : UInt64}
    (failed : (rangesetInsert grown s index base size).1 ≠ 0) :
    (rangesetInsert grown s index base size).2 = s := by
  unfold rangesetInsert at failed ⊢
  split at failed
  · split at failed
    · exact absurd rfl failed
    · rename_i full denied
      simp [full, denied]
  · exact absurd rfl failed

theorem rangesetInsert_full {grown : Bool} {s : Rangeset} {index : Nat} {base size : UInt64}
    (failed : (rangesetInsert grown s index base size).1 ≠ 0) : s.count = s.cap := by
  by_contra room
  simp [rangesetInsert, room] at failed

theorem insertIdx_length_append {α : Type} (before after : List α) (value : α) :
    (before ++ after).insertIdx before.length value = before ++ value :: after := by
  induction before with
  | nil => simp
  | cons first rest ih => simpa using ih

theorem insertIdx_succ_set {α : Type} (before after : List α) (old new value : α) :
    ((before ++ old :: after).insertIdx (before.length + 1) value).set before.length new =
      before ++ new :: value :: after := by
  induction before with
  | nil => simp
  | cons first rest ih => simpa using ih

theorem swallow_spans {base stop : UInt64} {ranges : List Range}
    (noWrap : ∀ r ∈ ranges, r.base.toNat + r.size.toNat < 2 ^ 64) :
    absorb base.toNat stop.toNat (spans ranges) =
      (((swallow base stop ranges).1.toNat, (swallow base stop ranges).2.1.toNat),
        spans (swallow base stop ranges).2.2) := by
  induction ranges generalizing base stop with
  | nil => rfl
  | cons r rest ih =>
      have ends := rangeEnd_toNat (noWrap r (by simp))
      have restNoWrap : ∀ r ∈ rest, r.base.toNat + r.size.toNat < 2 ^ 64 :=
        fun other member => noWrap other (by simp [member])
      simp only [spans_cons, absorb, swallow, Range.span, ← UInt64.le_iff_toNat_le]
      split
      · rw [← ih restNoWrap]
        congr 1
        · split <;> rename_i order <;> rw [UInt64.lt_iff_toNat_lt] at order <;> omega
        · split <;> rename_i order <;> rw [gt_iff_lt, UInt64.lt_iff_toNat_lt] at order <;> omega
      · rfl

theorem spans_takeWhile {base : UInt64} {ranges : List Range}
    (noWrap : ∀ r ∈ ranges, r.base.toNat + r.size.toNat < 2 ^ 64) :
    spans (ranges.takeWhile fun r => rangeEnd r < base) =
        (spans ranges).takeWhile (fun span => span.2 < base.toNat) ∧
      spans (ranges.dropWhile fun r => rangeEnd r < base) =
        (spans ranges).dropWhile fun span => span.2 < base.toNat := by
  induction ranges with
  | nil => simp
  | cons r rest ih =>
      have ends := rangeEnd_toNat (noWrap r (by simp))
      have tail := ih fun other member => noWrap other (by simp [member])
      by_cases below : rangeEnd r < base
      · have belowSpan : r.span.2 < base.toNat := by
          rw [UInt64.lt_iff_toNat_lt, ends] at below
          exact below
        simpa [List.takeWhile_cons, List.dropWhile_cons, below, belowSpan] using tail
      · have reachesSpan : ¬ r.span.2 < base.toNat := by
          rw [UInt64.lt_iff_toNat_lt, ends] at below
          exact below
        simp [below, reachesSpan]

theorem swallow_ordered (base stop : UInt64) {ranges : List Range} (normal : Normal ranges)
    (proper : base.toNat < stop.toNat) :
    (swallow base stop ranges).1.toNat < (swallow base stop ranges).2.1.toNat := by
  have merged := absorb_separated normal.separated proper
  rw [swallow_spans normal.noWrap] at merged
  exact (separated_cons.mp merged).1

theorem Normal.sublist {first second : List Range} (normal : Normal second)
    (sublist : first.Sublist second) : Normal first :=
  ⟨fun r member => normal.nonempty r (sublist.subset member),
    fun r member => normal.noWrap r (sublist.subset member), normal.apart.sublist sublist⟩

theorem Normal.sum_sizes_le {ranges : List Range} {start stop : ℕ} (normal : Normal ranges)
    (lower : ∀ r ∈ ranges, start ≤ r.base.toNat)
    (upper : ∀ r ∈ ranges, r.base.toNat + r.size.toNat ≤ stop) (room : start ≤ stop) :
    start + (ranges.map fun r => r.size.toNat).sum ≤ stop := by
  induction ranges generalizing start with
  | nil => exact room
  | cons r rest ih =>
      have := lower r (by simp)
      have := upper r (by simp)
      have later := @ih (r.base.toNat + r.size.toNat)
        (normal.sublist (List.sublist_cons_self r rest))
        (fun other member => Nat.le_of_lt ((List.pairwise_cons.mp normal.apart).1 other member))
        (fun other member => upper other (by simp [member])) (by omega)
      simp only [List.map_cons, List.sum_cons]
      omega

theorem rangesetAdd_spans {grown : Bool} {s : Rangeset} {base size : UInt64} (normal : Normal s.r)
    (sized : 0 < size.toNat) (fits : base.toNat + size.toNat < 2 ^ 64)
    (added : (rangesetAdd grown s base size).1 = 0) :
    spans (rangesetAdd grown s base size).2.r =
      insertSpan base.toNat (base.toNat + size.toNat) (spans s.r) := by
  have valid := (argument_valid_iff base size).mpr ⟨sized, fits⟩
  have stopEq : (base + size).toNat = base.toNat + size.toNat := rangeEnd_toNat (r := ⟨base, size⟩) fits
  simp only [rangesetAdd, valid, ↓reduceIte] at added ⊢
  have kept : Normal (s.r.dropWhile fun r => rangeEnd r < base) :=
    normal.sublist (List.dropWhile_sublist _)
  have ordered := swallow_ordered base (base + size) kept (by omega)
  rw [rangesetInsert_ranges added, insertIdx_length_append, spans_append, spans_cons,
    span_of_ends (le_of_lt ordered), (spans_takeWhile normal.noWrap).1, insertSpan, ← stopEq,
    ← (spans_takeWhile normal.noWrap).2, swallow_spans kept.noWrap]

theorem rangesetAdd_accepts {s : Rangeset} {base size : UInt64} (grown : Bool)
    (sized : 0 < size.toNat) (fits : base.toNat + size.toNat < 2 ^ 64) :
    (rangesetAdd grown s base size).1 = 0 ∨
      (rangesetAdd grown s base size).1 = -ENOMEM ∧ grown = false := by
  have valid := (argument_valid_iff base size).mpr ⟨sized, fits⟩
  simp only [rangesetAdd, valid, ↓reduceIte]
  exact rangesetInsert_result grown _ _ _ _

theorem rangesetAdd_rejects {s : Rangeset} {base size : UInt64} (grown : Bool)
    (invalid : size.toNat = 0 ∨ 2 ^ 64 ≤ base.toNat + size.toNat) :
    rangesetAdd grown s base size = (-EINVAL, s) := by
  simp only [rangesetAdd, argument_invalid invalid, ↓reduceIte]

/-- The loop keeps `done` and erases `[base, stop)` from the ranges it has not seen. -/
theorem subtractLoop_spans {grown : Bool} {cap : Nat} {base stop : UInt64} {done rest : List Range}
    (proper : base.toNat < stop.toNat) (normal : Normal rest)
    (subtracted : (subtractLoop grown cap base stop done rest).1 = 0) :
    spans (subtractLoop grown cap base stop done rest).2.r =
      spans done ++ eraseSpan base.toNat stop.toNat (spans rest) := by
  induction rest generalizing done with
  | nil => simp [subtractLoop, eraseSpan]
  | cons r rest ih =>
      have ends := rangeEnd_toNat (normal.noWrap r (by simp))
      have nonempty := normal.nonempty r (by simp)
      have restNormal : Normal rest := normal.sublist (List.sublist_cons_self r rest)
      have low : r.span.1 = r.base.toNat := rfl
      have high : r.span.2 = r.base.toNat + r.size.toNat := rfl
      have spanProper : r.span.1 < r.span.2 := by omega
      simp only [subtractLoop, UInt64.le_iff_toNat_le, UInt64.lt_iff_toNat_lt, ge_iff_le,
        gt_iff_lt, ends] at subtracted ⊢
      rw [spans_cons, eraseSpan_cons]
      -- The ways `[base, stop)` can meet the range, in the order of the source.
      by_cases disjoint : r.base.toNat + r.size.toNat ≤ base.toNat ∨ stop.toNat ≤ r.base.toNat
      · rw [if_pos disjoint] at subtracted ⊢
        rw [ih restNormal subtracted, remnants_disjoint spanProper proper disjoint]
        simp
      · rw [if_neg disjoint] at subtracted ⊢
        by_cases before : r.base.toNat < base.toNat
        · by_cases after : stop.toNat < r.base.toNat + r.size.toNat
          · rw [if_pos ⟨before, after⟩] at subtracted ⊢
            have inserted : (rangesetInsert grown { r := done ++ r :: rest, cap := cap }
                (done.length + 1) stop (rangeEnd r - stop)).1 = 0 := by
              by_contra failed
              rw [if_pos failed] at subtracted
              exact failed subtracted
            -- A split ends the loop: what follows starts behind the range that was split.
            have later : ∀ span ∈ spans rest, stop.toNat ≤ span.1 := by
              intro span member
              have := (separated_cons.mp normal.separated).2.1 span member
              omega
            rw [if_neg (not_not.mpr inserted)]
            simp only [rangesetInsert_ranges inserted]
            rw [insertIdx_succ_set, spans_append, spans_cons, spans_cons, span_of_ends (le_of_lt before),
              span_of_ends (by omega), ends, remnants_split proper before after,
              eraseSpan_above restNormal.separated proper later]
            rfl
          · rw [if_neg (by tauto), if_pos before] at subtracted ⊢
            rw [ih restNormal subtracted, remnants_left before (by omega) (by omega), spans_append,
              spans_cons, spans_nil, span_of_ends (le_of_lt before), List.append_assoc]
            rfl
        · rw [if_neg (by tauto), if_neg before] at subtracted ⊢
          by_cases after : stop.toNat < r.base.toNat + r.size.toNat
          · rw [if_pos after] at subtracted ⊢
            rw [ih restNormal subtracted, remnants_right (by omega) (by omega) after, spans_append,
              spans_cons, spans_nil, span_of_ends (by omega), ends, List.append_assoc]
            rfl
          · rw [if_neg after] at subtracted ⊢
            rw [ih restNormal subtracted, remnants_within (by omega) (by omega), List.nil_append]

theorem subtractLoop_result (grown : Bool) (cap : Nat) (base stop : UInt64)
    (done rest : List Range) :
    (subtractLoop grown cap base stop done rest).1 = 0 ∨
      (subtractLoop grown cap base stop done rest).1 = -ENOMEM ∧ grown = false := by
  induction rest generalizing done with
  | nil => simp [subtractLoop]
  | cons r rest ih =>
      simp only [subtractLoop]
      split
      · exact ih _
      · split
        · split
          · rename_i failed
            exact Or.inr ((rangesetInsert_result grown _ _ _ _).resolve_left failed)
          · simp
        · split
          · exact ih _
          · split <;> exact ih _

theorem rangesetSubtract_accepts {s : Rangeset} {base size : UInt64} (grown : Bool)
    (sized : 0 < size.toNat) (fits : base.toNat + size.toNat < 2 ^ 64) :
    (rangesetSubtract grown s base size).1 = 0 ∨
      (rangesetSubtract grown s base size).1 = -ENOMEM ∧ grown = false := by
  have valid := (argument_valid_iff base size).mpr ⟨sized, fits⟩
  simp only [rangesetSubtract, valid, ↓reduceIte]
  exact subtractLoop_result grown _ _ _ _ _

theorem rangesetSubtract_rejects {s : Rangeset} {base size : UInt64} (grown : Bool)
    (invalid : size.toNat = 0 ∨ 2 ^ 64 ≤ base.toNat + size.toNat) :
    rangesetSubtract grown s base size = (-EINVAL, s) := by
  simp only [rangesetSubtract, argument_invalid invalid, ↓reduceIte]

theorem rangesetSubtract_spans {grown : Bool} {s : Rangeset} {base size : UInt64}
    (normal : Normal s.r) (sized : 0 < size.toNat) (fits : base.toNat + size.toNat < 2 ^ 64)
    (subtracted : (rangesetSubtract grown s base size).1 = 0) :
    spans (rangesetSubtract grown s base size).2.r =
      eraseSpan base.toNat (base.toNat + size.toNat) (spans s.r) := by
  have valid := (argument_valid_iff base size).mpr ⟨sized, fits⟩
  have stopEq : (base + size).toNat = base.toNat + size.toNat := rangeEnd_toNat (r := ⟨base, size⟩) fits
  simp only [rangesetSubtract, valid, ↓reduceIte] at subtracted ⊢
  rw [subtractLoop_spans (by omega) normal subtracted, stopEq]
  simp

theorem rangesetAdd_correct {grown : Bool} {s : Rangeset} {base size : UInt64}
    (normal : Normal s.r) (added : (rangesetAdd grown s base size).1 = 0) :
    Normal (rangesetAdd grown s base size).2.r ∧
      addresses (rangesetAdd grown s base size).2.r =
        addresses s.r ∪ Set.Ico base.toNat (base.toNat + size.toNat) := by
  obtain ⟨sized, fits⟩ := argument_valid_of_accepted (rangesetAdd_rejects grown) added
  obtain ⟨separated, bounded⟩ := (normal_iff s.r).mp normal
  have result := rangesetAdd_spans normal sized fits added
  rw [normal_iff, addresses, result]
  exact ⟨⟨insertSpan_separated separated (by omega), insertSpan_bounded fits bounded⟩,
    insertSpan_cover separated⟩

theorem rangesetSubtract_correct {grown : Bool} {s : Rangeset} {base size : UInt64}
    (normal : Normal s.r) (subtracted : (rangesetSubtract grown s base size).1 = 0) :
    Normal (rangesetSubtract grown s base size).2.r ∧
      addresses (rangesetSubtract grown s base size).2.r =
        addresses s.r \ Set.Ico base.toNat (base.toNat + size.toNat) := by
  obtain ⟨sized, fits⟩ := argument_valid_of_accepted (rangesetSubtract_rejects grown) subtracted
  obtain ⟨separated, bounded⟩ := (normal_iff s.r).mp normal
  have result := rangesetSubtract_spans normal sized fits subtracted
  rw [normal_iff, addresses, result]
  exact ⟨⟨eraseSpan_separated separated (by omega), eraseSpan_bounded bounded⟩,
    eraseSpan_cover _ _ _⟩

/-- Ranges that start at or above `base` are trimmed or dropped, never split. -/
theorem subtractLoop_above {grown : Bool} {cap : Nat} {base stop : UInt64} {done rest : List Range}
    (above : ∀ r ∈ rest, base.toNat ≤ r.base.toNat) :
    (subtractLoop grown cap base stop done rest).1 = 0 := by
  induction rest generalizing done with
  | nil => rfl
  | cons r rest ih =>
      have restAbove : ∀ r ∈ rest, base.toNat ≤ r.base.toNat :=
        fun other member => above other (by simp [member])
      have starts : ¬ r.base < base := by
        rw [UInt64.lt_iff_toNat_lt]
        exact Nat.not_lt.mpr (above r (by simp))
      simp only [subtractLoop, starts, false_and, if_false]
      split
      · exact ih restAbove
      · split <;> exact ih restAbove

/-- The loop fails only where it splits a range, and then nothing before was trimmed. -/
theorem subtractLoop_failed {grown : Bool} {cap : Nat} {base stop : UInt64} {done rest : List Range}
    (normal : Normal rest) (failed : (subtractLoop grown cap base stop done rest).1 ≠ 0) :
    (subtractLoop grown cap base stop done rest).2 = { r := done ++ rest, cap := cap } := by
  induction rest generalizing done with
  | nil => exact absurd rfl failed
  | cons r rest ih =>
      have ends := rangeEnd_toNat (normal.noWrap r (by simp))
      have restNormal : Normal rest := normal.sublist (List.sublist_cons_self r rest)
      have later : ∀ other ∈ rest, r.base.toNat + r.size.toNat < other.base.toNat :=
        (List.pairwise_cons.mp normal.apart).1
      simp only [subtractLoop] at failed ⊢
      by_cases disjoint : rangeEnd r ≤ base ∨ r.base ≥ stop
      · rw [if_pos disjoint] at failed ⊢
        rw [ih restNormal failed, List.append_assoc, List.singleton_append]
      · rw [if_neg disjoint] at failed ⊢
        -- From here on the range meets `[base, stop)`, so what follows starts above `base`.
        have above : ∀ other ∈ rest, base.toNat ≤ other.base.toNat := by
          intro other member
          have reached := later other member
          simp only [UInt64.le_iff_toNat_le, not_or, ends] at disjoint
          omega
        by_cases split : r.base < base ∧ rangeEnd r > stop
        · rw [if_pos split] at failed ⊢
          by_cases inserted : (rangesetInsert grown { r := done ++ r :: rest, cap := cap }
              (done.length + 1) stop (rangeEnd r - stop)).1 = 0
          · simp [inserted] at failed
          · rw [if_pos inserted]
            exact rangesetInsert_failed inserted
        · rw [if_neg split] at failed
          by_cases before : r.base < base
          · rw [if_pos before] at failed
            exact absurd (subtractLoop_above above) failed
          · rw [if_neg before] at failed
            by_cases after : rangeEnd r > stop
            · rw [if_pos after] at failed
              exact absurd (subtractLoop_above above) failed
            · rw [if_neg after] at failed
              exact absurd (subtractLoop_above above) failed

theorem swallow_length (base stop : UInt64) (ranges : List Range) :
    (swallow base stop ranges).2.2.length ≤ ranges.length ∧
      ((swallow base stop ranges).2.2.length = ranges.length →
        (swallow base stop ranges).2.2 = ranges) := by
  induction ranges generalizing base stop with
  | nil => simp [swallow]
  | cons r rest ih =>
      simp only [swallow]
      split
      · have shorter := (ih (if r.base < base then r.base else base)
          (if rangeEnd r > stop then rangeEnd r else stop)).1
        rw [List.length_cons]
        exact ⟨by omega, fun full => absurd full (by omega)⟩
      · exact ⟨le_refl _, fun _ => rfl⟩

/-- A range that was swallowed leaves room for the merged one, so an allocation is made only
where nothing was removed. -/
theorem rangesetAdd_failed {grown : Bool} {s : Rangeset} {base size : UInt64}
    (room : s.count ≤ s.cap) (failed : (rangesetAdd grown s base size).1 ≠ 0) :
    (rangesetAdd grown s base size).2 = s := by
  simp only [rangesetAdd] at failed ⊢
  by_cases invalid : size = 0 ∨ base + size < base
  · rw [if_pos invalid]
  · rw [if_neg invalid] at failed ⊢
    rw [rangesetInsert_failed failed]
    obtain ⟨shorter, same⟩ :=
      swallow_length base (base + size) (s.r.dropWhile fun r => rangeEnd r < base)
    have parts : (s.r.takeWhile fun r => rangeEnd r < base).length +
        (s.r.dropWhile fun r => rangeEnd r < base).length = s.r.length := by
      rw [← List.length_append, List.takeWhile_append_dropWhile]
    have full : (s.r.takeWhile fun r => rangeEnd r < base).length +
        (swallow base (base + size) (s.r.dropWhile fun r => rangeEnd r < base)).2.2.length =
          s.cap := by
      rw [← List.length_append]
      exact rangesetInsert_full failed
    have count : s.r.length ≤ s.cap := room
    rw [same (by omega), List.takeWhile_append_dropWhile]

theorem rangesetSubtract_failed {grown : Bool} {s : Rangeset} {base size : UInt64}
    (normal : Normal s.r) (failed : (rangesetSubtract grown s base size).1 ≠ 0) :
    (rangesetSubtract grown s base size).2 = s := by
  simp only [rangesetSubtract] at failed ⊢
  by_cases invalid : size = 0 ∨ base + size < base
  · rw [if_pos invalid]
  · rw [if_neg invalid] at failed ⊢
    exact subtractLoop_failed normal failed

/-- An operation that fails, for its arguments or for want of memory, loses no range. -/
theorem rangeset_failure_keeps {s : Rangeset} (normal : Normal s.r) (room : s.count ≤ s.cap)
    (grown : Bool) (base size : UInt64) :
    ((rangesetAdd grown s base size).1 ≠ 0 → (rangesetAdd grown s base size).2 = s) ∧
      ((rangesetSubtract grown s base size).1 ≠ 0 → (rangesetSubtract grown s base size).2 = s) :=
  ⟨rangesetAdd_failed room, rangesetSubtract_failed normal⟩

/-- A full array of one range, to be split without memory. -/
theorem rangeset_failure_keeps_split :
    Normal [⟨4096, 8192⟩] ∧
      (rangesetSubtract false { r := [⟨4096, 8192⟩], cap := 1 } 6000 100).1 = -ENOMEM ∧
      (rangesetSubtract false { r := [⟨4096, 8192⟩], cap := 1 } 6000 100).2.r = [⟨4096, 8192⟩] := by
  have normal : Normal [⟨4096, 8192⟩] := ⟨by decide, by decide, by decide⟩
  have kept := (@rangeset_failure_keeps { r := [⟨4096, 8192⟩], cap := 1 } normal (by decide) false
    6000 100).2 (by decide)
  exact ⟨normal, by decide, congrArg Rangeset.r kept⟩

/-- The invariant rule of the loops over another rangeset: what one round extends by one
range holds of all of them once the loop returns 0. -/
theorem rangesetEach_invariant {op : Bool → Rangeset → UInt64 → UInt64 → Int × Rangeset}
    {mem : Nat → Bool} {s : Rangeset} {todo : List Range} (invariant : List Range → Rangeset → Prop)
    (step : ∀ grown s seen r, r ∈ todo → invariant seen s → (op grown s r.base r.size).1 = 0 →
      invariant (seen ++ [r]) (op grown s r.base r.size).2)
    (seen : List Range) (initial : invariant seen s) (finished : (rangesetEach op mem s todo).1 = 0) :
    invariant (seen ++ todo) (rangesetEach op mem s todo).2 := by
  induction todo generalizing mem s seen with
  | nil => simpa [rangesetEach] using initial
  | cons r rest ih =>
      simp only [rangesetEach] at finished ⊢
      split at finished
      · contradiction
      · rename_i succeeded
        rw [if_neg succeeded]
        have next := step (mem 0) s seen r (by simp) initial (not_not.mp succeeded)
        have tail := ih (fun grown s seen r member => step grown s seen r (by simp [member])) _ next
          finished
        simpa using tail

/-- What the operations ask of a range. -/
def Range.Valid (r : Range) : Prop := 0 < r.size.toNat ∧ r.base.toNat + r.size.toNat < 2 ^ 64

theorem Normal.valid {ranges : List Range} (normal : Normal ranges) : ∀ r ∈ ranges, r.Valid :=
  fun r member => ⟨normal.nonempty r member, normal.noWrap r member⟩

theorem rangesetEach_result {op : Bool → Rangeset → UInt64 → UInt64 → Int × Rangeset}
    {s : Rangeset} {todo : List Range} (valid : ∀ r ∈ todo, r.Valid)
    (accepts : ∀ (s : Rangeset) (base size : UInt64), 0 < size.toNat →
      base.toNat + size.toNat < 2 ^ 64 → (op true s base size).1 = 0) :
    (rangesetEach op (fun _ => true) s todo).1 = 0 := by
  induction todo generalizing s with
  | nil => rfl
  | cons r rest ih =>
      obtain ⟨first, others⟩ := List.forall_mem_cons.mp valid
      have round := accepts s r.base r.size first.1 first.2
      simp only [rangesetEach, round, ne_eq, not_true_eq_false, ↓reduceIte]
      exact ih others

@[simp] theorem addresses_nil : addresses [] = ∅ := cover_nil

theorem addresses_append_singleton (ranges : List Range) (r : Range) :
    addresses (ranges ++ [r]) =
      addresses ranges ∪ Set.Ico r.base.toNat (r.base.toNat + r.size.toNat) := by
  simp [addresses, Range.span]

theorem rangesetSubtractSet_correct {mem : Nat → Bool} {s minus : Rangeset} (normal : Normal s.r)
    (subtracted : (rangesetSubtractSet mem s minus).1 = 0) :
    Normal (rangesetSubtractSet mem s minus).2.r ∧
      addresses (rangesetSubtractSet mem s minus).2.r = addresses s.r \ addresses minus.r := by
  refine rangesetEach_invariant (fun seen current =>
    Normal current.r ∧ addresses current.r = addresses s.r \ addresses seen) ?_ [] ?_ subtracted
  · rintro grown current seen r - ⟨currentNormal, currentAddresses⟩ accepted
    have round := rangesetSubtract_correct currentNormal accepted
    refine ⟨round.1, ?_⟩
    rw [round.2, currentAddresses, addresses_append_singleton, Set.sdiff_sdiff]
  · simpa using normal

theorem rangesetEach_add {mem : Nat → Bool} {todo : List Range}
    (added : (rangesetEach rangesetAdd mem rangesetInit todo).1 = 0) :
    Normal (rangesetEach rangesetAdd mem rangesetInit todo).2.r ∧
      addresses (rangesetEach rangesetAdd mem rangesetInit todo).2.r = addresses todo := by
  refine rangesetEach_invariant (fun seen current =>
    Normal current.r ∧ addresses current.r = addresses seen) ?_ [] ?_ added
  · rintro grown current seen r - ⟨currentNormal, currentAddresses⟩ accepted
    have round := rangesetAdd_correct currentNormal accepted
    refine ⟨round.1, ?_⟩
    rw [round.2, currentAddresses, addresses_append_singleton]
  · exact ⟨normal_nil, rfl⟩

theorem rangesetEach_add_valid {mem : Nat → Bool} {s : Rangeset} {todo : List Range}
    (added : (rangesetEach rangesetAdd mem s todo).1 = 0) : ∀ r ∈ todo, r.Valid := by
  refine rangesetEach_invariant (fun seen _ => ∀ r ∈ seen, r.Valid) ?_ [] (by simp) added
  intro grown s seen r _ before accepted
  rw [List.forall_mem_append]
  refine ⟨before, ?_⟩
  rw [List.forall_mem_singleton]
  exact argument_valid_of_accepted (rangesetAdd_rejects grown) accepted

theorem rangesetAdd_nonpos (grown : Bool) (s : Rangeset) (base size : UInt64) :
    (rangesetAdd grown s base size).1 ≤ 0 := by
  by_cases valid : 0 < size.toNat ∧ base.toNat + size.toNat < 2 ^ 64
  · rcases @rangesetAdd_accepts s base size grown valid.1 valid.2 with added | ⟨failed, -⟩
    · rw [added]
    · rw [failed]
      decide
  · rw [rangesetAdd_rejects grown (by omega)]
    exact show -EINVAL ≤ 0 by decide

theorem rangesetEach_add_nonpos (mem : Nat → Bool) (s : Rangeset) (todo : List Range) :
    (rangesetEach rangesetAdd mem s todo).1 ≤ 0 := by
  induction todo generalizing mem s with
  | nil => exact le_rfl
  | cons r rest ih =>
      simp only [rangesetEach]
      split
      · exact rangesetAdd_nonpos _ _ _ _
      · exact ih _ _

theorem rangesetCopy_addresses {mem : Nat → Bool} {dst src : Rangeset}
    (copied : (rangesetCopy mem dst src).1 = 0) :
    Normal (rangesetCopy mem dst src).2.r ∧
      addresses (rangesetCopy mem dst src).2.r = addresses src.r :=
  rangesetEach_add copied

theorem rangesetCopy_correct {mem : Nat → Bool} {dst src : Rangeset} (normal : Normal src.r)
    (copied : (rangesetCopy mem dst src).1 = 0) : (rangesetCopy mem dst src).2.r = src.r := by
  obtain ⟨result, same⟩ := rangesetCopy_addresses copied
  exact result.eq_of_addresses_eq normal same

theorem roundDown_toNat (value block : UInt64) :
    (value / block * block).toNat = value.toNat / block.toNat * block.toNat := by
  have bound := value.toNat_lt
  have rounded := Nat.div_mul_le_self value.toNat block.toNat
  rw [UInt64.toNat_mul, UInt64.toNat_div]
  exact Nat.mod_eq_of_lt (by omega)

theorem roundUp_toNat {base block : UInt64} (positive : 0 < block.toNat)
    (room : base.toNat + block.toNat ≤ 2 ^ 64) :
    ((base + block - 1) / block * block).toNat =
      (base.toNat + block.toNat - 1) / block.toNat * block.toNat := by
  have one : (1 : UInt64).toNat = 1 := rfl
  have raised : (base + block - 1).toNat = base.toNat + block.toNat - 1 := by
    rw [UInt64.toNat_sub, UInt64.toNat_add, one]
    omega
  rw [roundDown_toNat, raised]

/-- Past the end of the address space the base wraps to the first block. -/
theorem roundUp_wrapped {base block : UInt64} (wraps : 2 ^ 64 < base.toNat + block.toNat) :
    ((base + block - 1) / block * block).toNat = 0 := by
  have one : (1 : UInt64).toNat = 1 := rfl
  have baseBound := base.toNat_lt
  have blockBound := block.toNat_lt
  have raised : (base + block - 1).toNat = base.toNat + block.toNat - 1 - 2 ^ 64 := by
    rw [UInt64.toNat_sub, UInt64.toNat_add, one]
    omega
  rw [roundDown_toNat, raised, Nat.div_eq_of_lt (by omega), Nat.zero_mul]

/-- The two ends one round of `rangeset_align` computes, in the words of the source. -/
def roundedSpan (block : UInt64) (r : Range) : Span ℕ :=
  (((r.base + block - 1) / block * block).toNat, (rangeEnd r / block * block).toNat)

theorem alignLoop_result (block : UInt64) (out : Rangeset) (ranges : List Range) :
    (alignLoop block (fun _ => true) out ranges).1 = 0 := by
  induction ranges generalizing out with
  | nil => rfl
  | cons r rest ih =>
      simp only [alignLoop]
      generalize (r.base + block - 1) / block * block = low
      generalize rangeEnd r / block * block = high
      by_cases empty : high ≤ low
      · rw [if_pos empty]
        exact ih out
      · rw [if_neg empty]
        have ordered : low.toNat < high.toNat := by
          rw [UInt64.le_iff_toNat_le] at empty
          omega
        have bound := high.toNat_lt
        have width : (high - low).toNat = high.toNat - low.toNat :=
          UInt64.toNat_sub_of_le high low (UInt64.le_iff_toNat_le.mpr (le_of_lt ordered))
        have added : (rangesetAdd true out low (high - low)).1 = 0 :=
          (rangesetAdd_accepts true (by omega) (by omega)).resolve_right (by simp)
        rw [if_neg (not_not.mpr added)]
        exact ih _

theorem alignLoop_correct {block : UInt64} {mem : Nat → Bool} {out : Rangeset} {ranges : List Range}
    (normal : Normal out.r) (aligned : (alignLoop block mem out ranges).1 = 0) :
    Normal (alignLoop block mem out ranges).2.r ∧
      addresses (alignLoop block mem out ranges).2.r =
        addresses out.r ∪ cover (ranges.map (roundedSpan block)) := by
  induction ranges generalizing mem out with
  | nil => simpa [alignLoop] using normal
  | cons r rest ih =>
      simp only [alignLoop] at aligned ⊢
      rw [List.map_cons, cover_cons, roundedSpan]
      generalize (r.base + block - 1) / block * block = low at *
      generalize rangeEnd r / block * block = high at *
      by_cases empty : high ≤ low
      · rw [if_pos empty] at aligned ⊢
        have nothing : Set.Ico low.toNat high.toNat = ∅ :=
          Set.Ico_eq_empty_of_le (UInt64.le_iff_toNat_le.mp empty)
        simpa [nothing] using ih normal aligned
      · rw [if_neg empty] at aligned ⊢
        by_cases added : (rangesetAdd (mem 0) out low (high - low)).1 = 0
        · rw [if_neg (not_not.mpr added)] at aligned ⊢
          have ordered : low.toNat ≤ high.toNat := by
            rw [UInt64.le_iff_toNat_le] at empty
            omega
          obtain ⟨roundNormal, roundAddresses⟩ := rangesetAdd_correct normal added
          obtain ⟨tailNormal, tailAddresses⟩ := ih roundNormal aligned
          refine ⟨tailNormal, ?_⟩
          have ends : low.toNat + (high - low).toNat = high.toNat :=
            congrArg Prod.snd (span_of_ends ordered)
          rw [tailAddresses, roundAddresses, ends, Set.union_assoc]
        · rw [if_pos added] at aligned
          exact absurd aligned added

theorem roundedSpan_eq {block : UInt64} {r : Range} (positive : 0 < block.toNat)
    (noWrap : r.base.toNat + r.size.toNat < 2 ^ 64)
    (room : r.base.toNat + block.toNat ≤ 2 ^ 64) :
    roundedSpan block r = alignSpan block.toNat r.span := by
  rw [roundedSpan, roundUp_toNat positive room, roundDown_toNat, rangeEnd_toNat noWrap, alignSpan,
    Range.span]

/-- Where rounding up stays in range, `rangeset_align` into an empty rangeset keeps exactly
the whole blocks. -/
theorem rangesetAlign_correct {block : UInt64} {mem : Nat → Bool} {s : Rangeset}
    (normal : Normal s.r) (room : ∀ r ∈ s.r, r.base.toNat + block.toNat ≤ 2 ^ 64)
    (aligned : (rangesetAlign mem s block rangesetInit).1 = 0) :
    Normal (rangesetAlign mem s block rangesetInit).2.r ∧
      addresses (rangesetAlign mem s block rangesetInit).2.r =
        wholeBlocks block.toNat (addresses s.r) := by
  unfold rangesetAlign at aligned ⊢
  by_cases zero : block = 0
  · simp [zero, EINVAL] at aligned
  · rw [if_neg zero] at aligned ⊢
    have positive : 0 < block.toNat :=
      Nat.pos_of_ne_zero fun isZero => zero (UInt64.toNat_inj.mp isZero)
    have result := alignLoop_correct normal_nil aligned
    have rounded : s.r.map (roundedSpan block) = (spans s.r).map (alignSpan block.toNat) := by
      rw [spans, List.map_map]
      exact List.map_congr_left fun r member =>
        roundedSpan_eq positive (normal.noWrap r member) (room r member)
    refine ⟨result.1, ?_⟩
    rw [result.2, rounded, addresses, addresses, normal.separated.wholeBlocks_cover positive]
    simp [rangesetInit]

/-- What the rounds whose base wrapped add: every address below the last block boundary at or
below the end of such a range. -/
def wrappedBlocks (block : UInt64) (ranges : List Range) : Set ℕ :=
  { point | ∃ r ∈ ranges, 2 ^ 64 < r.base.toNat + block.toNat ∧
      point < (r.base.toNat + r.size.toNat) / block.toNat * block.toNat }

theorem mem_roundedSpan {block : UInt64} {r : Range} (positive : 0 < block.toNat)
    (noWrap : r.base.toNat + r.size.toNat < 2 ^ 64) (point : ℕ) :
    point ∈ Set.Ico (roundedSpan block r).1 (roundedSpan block r).2 ↔
      point ∈ Set.Ico (alignSpan block.toNat r.span).1 (alignSpan block.toNat r.span).2 ∨
        2 ^ 64 < r.base.toNat + block.toNat ∧
          point < (r.base.toNat + r.size.toNat) / block.toNat * block.toNat := by
  by_cases wraps : 2 ^ 64 < r.base.toNat + block.toNat
  · -- The range starts within a block of the end of the address space, so it holds no block.
    have order : (r.base.toNat + r.size.toNat) / block.toNat * block.toNat ≤
        (r.base.toNat + block.toNat - 1) / block.toNat * block.toNat :=
      Nat.mul_le_mul_right _ (Nat.div_le_div_right (by omega))
    simp only [roundedSpan, roundUp_wrapped wraps, roundDown_toNat, rangeEnd_toNat noWrap, alignSpan,
      Range.span, Set.Ico_eq_empty_of_le order, Set.mem_Ico, Nat.zero_le, true_and, wraps,
      Set.mem_empty_iff_false, false_or]
  · rw [roundedSpan_eq positive noWrap (by omega), or_iff_left fun wrapped => wraps wrapped.1]

theorem cover_roundedSpan {block : UInt64} {ranges : List Range} (positive : 0 < block.toNat)
    (noWrap : ∀ r ∈ ranges, r.base.toNat + r.size.toNat < 2 ^ 64) :
    cover (ranges.map (roundedSpan block)) =
      cover ((spans ranges).map (alignSpan block.toNat)) ∪ wrappedBlocks block ranges := by
  ext point
  simp only [cover, spans, List.mem_map, List.map_map, Set.mem_union, Set.mem_ofPred_eq, wrappedBlocks]
  constructor
  · rintro ⟨_, ⟨r, member, rfl⟩, inside⟩
    rcases (mem_roundedSpan positive (noWrap r member) point).mp inside with whole | wrapped
    · exact Or.inl ⟨_, ⟨r, member, rfl⟩, whole⟩
    · exact Or.inr ⟨r, member, wrapped⟩
  · rintro (⟨_, ⟨r, member, rfl⟩, whole⟩ | ⟨r, member, wrapped⟩)
    · exact ⟨_, ⟨r, member, rfl⟩, (mem_roundedSpan positive (noWrap r member) point).mpr (Or.inl whole)⟩
    · exact ⟨_, ⟨r, member, rfl⟩,
        (mem_roundedSpan positive (noWrap r member) point).mpr (Or.inr wrapped)⟩

/-- With memory to spare the alignment holds the whole blocks and what the wrapped rounds add. -/
theorem rangesetAlign_addresses {s : Rangeset} {block : UInt64} (normal : Normal s.r)
    (positive : 0 < block.toNat) :
    (rangesetAlign (fun _ => true) s block rangesetInit).1 = 0 ∧
      Normal (rangesetAlign (fun _ => true) s block rangesetInit).2.r ∧
      addresses (rangesetAlign (fun _ => true) s block rangesetInit).2.r =
        wholeBlocks block.toNat (addresses s.r) ∪ wrappedBlocks block s.r := by
  have nonzero : block ≠ 0 := by
    rintro rfl
    exact absurd positive (by decide)
  rw [rangesetAlign, if_neg nonzero]
  have aligned := alignLoop_result block rangesetInit s.r
  obtain ⟨outNormal, outAddresses⟩ := alignLoop_correct normal_nil aligned
  refine ⟨aligned, outNormal, ?_⟩
  rw [outAddresses, cover_roundedSpan positive normal.noWrap, addresses, addresses,
    normal.separated.wholeBlocks_cover positive]
  simp [rangesetInit]

/-- The blocks below a block boundary are whole where every address below it is there. -/
theorem wrappedBlocks_whole {block : UInt64} {ranges : List Range} (positive : 0 < block.toNat)
    (inside : wrappedBlocks block ranges ⊆ addresses ranges) :
    wrappedBlocks block ranges ⊆ wholeBlocks block.toNat (addresses ranges) := by
  rintro point ⟨r, member, wraps, below⟩
  refine ⟨point / block.toNat, ⟨Nat.div_mul_le_self _ _,
    Nat.lt_mul_of_div_lt (Nat.lt_succ_self _) positive⟩, ?_⟩
  rintro other ⟨_, upper⟩
  refine inside ⟨r, member, wraps, lt_of_lt_of_le upper ?_⟩
  have earlier : point / block.toNat < (r.base.toNat + r.size.toNat) / block.toNat :=
    Nat.div_lt_of_lt_mul (by rwa [Nat.mul_comm])
  exact Nat.mul_le_mul_right _ earlier

/-- `rangeset_align` keeps exactly the whole blocks just where no base that wraps when rounded
up brings in an address the set does not have. -/
theorem rangesetAlign_exact_iff {s : Rangeset} {block : UInt64} (normal : Normal s.r)
    (positive : 0 < block.toNat) :
    (rangesetAlign (fun _ => true) s block rangesetInit).1 = 0 ∧
      Normal (rangesetAlign (fun _ => true) s block rangesetInit).2.r ∧
      (addresses (rangesetAlign (fun _ => true) s block rangesetInit).2.r =
          wholeBlocks block.toNat (addresses s.r) ∧
        addresses (rangesetAlign (fun _ => true) s block rangesetInit).2.r ⊆ addresses s.r ↔
      ∀ r ∈ s.r, r.base.toNat + block.toNat ≤ 2 ^ 64 ∨
        Set.Iio ((r.base.toNat + r.size.toNat) / block.toNat * block.toNat) ⊆ addresses s.r) := by
  obtain ⟨aligned, outNormal, outAddresses⟩ := rangesetAlign_addresses normal positive
  refine ⟨aligned, outNormal, ?_⟩
  rw [outAddresses]
  constructor
  · rintro ⟨-, subset⟩ r member
    refine or_iff_not_imp_left.mpr fun wraps point below => ?_
    exact subset (Or.inr ⟨r, member, by omega, below⟩)
  · intro harmless
    have inside : wrappedBlocks block s.r ⊆ addresses s.r := by
      rintro point ⟨r, member, wraps, below⟩
      exact (harmless r member).resolve_left (by omega) below
    rw [Set.union_eq_self_of_subset_right (wrappedBlocks_whole positive inside)]
    exact ⟨rfl, wholeBlocks_subset _ _⟩

theorem rangesetAlign_exact_iff_low :
    Normal [⟨0x100000, 0x800000⟩] ∧ 0 < (0x200000 : UInt64).toNat ∧
      addresses (rangesetAlign (fun _ => true) { r := [⟨0x100000, 0x800000⟩], cap := 8 } 0x200000
          rangesetInit).2.r =
        wholeBlocks (0x200000 : UInt64).toNat (addresses [⟨0x100000, 0x800000⟩]) := by
  have normal : Normal [⟨0x100000, 0x800000⟩] := ⟨by decide, by decide, by decide⟩
  have exact := @rangesetAlign_exact_iff { r := [⟨0x100000, 0x800000⟩], cap := 8 } 0x200000 normal
    (by decide)
  exact ⟨normal, by decide, (exact.2.2.mpr fun r member => Or.inl (by
    rw [List.mem_singleton.mp member]
    decide)).1⟩

/-- A range one megabyte below the end of the address space, aligned to 2 MB blocks. -/
def topRange : Rangeset := { r := [⟨0xfffffffffff00000, 0x80000⟩], cap := 8 }

theorem topRange_normal : Normal topRange.r :=
  ⟨by decide, by decide, by decide⟩

/-- It holds no block, yet all blocks below it come out. -/
theorem rangesetAlign_wraps :
    Normal topRange.r ∧
      rangesetAlign (fun _ => true) topRange 0x200000 rangesetInit =
        (0, { r := [⟨0, 0xffffffffffe00000⟩], cap := 8 }) ∧
      ¬ addresses (rangesetAlign (fun _ => true) topRange 0x200000 rangesetInit).2.r ⊆
        addresses topRange.r := by
  have result : rangesetAlign (fun _ => true) topRange 0x200000 rangesetInit =
      (0, { r := [⟨0, 0xffffffffffe00000⟩], cap := 8 }) := by decide
  refine ⟨topRange_normal, result, fun subset => ?_⟩
  rw [result] at subset
  have low : (0 : ℕ) ∈ addresses topRange.r := subset ⟨_, List.mem_singleton.mpr rfl, by decide⟩
  obtain ⟨span, member, lower, -⟩ := low
  rw [List.mem_singleton.mp member] at lower
  exact absurd lower (by decide)

theorem rangesetContains_iff {s : Rangeset} {base size : UInt64} (normal : Normal s.r)
    (sized : 0 < size.toNat) (fits : base.toNat + size.toNat < 2 ^ 64) :
    rangesetContains s base size = true ↔
      Set.Ico base.toNat (base.toNat + size.toNat) ⊆ addresses s.r := by
  have stop : (base + size).toNat = base.toNat + size.toNat := by
    rw [UInt64.toNat_add]
    omega
  have within (r : Range) (member : r ∈ s.r) : (r.base ≤ base && base + size ≤ rangeEnd r) = true ↔
      r.span.1 ≤ base.toNat ∧ base.toNat + size.toNat ≤ r.span.2 := by
    rw [Bool.and_eq_true, decide_eq_true_iff, decide_eq_true_iff, UInt64.le_iff_toNat_le,
      UInt64.le_iff_toNat_le, stop, rangeEnd_toNat (normal.noWrap r member), Range.span]
  rw [rangesetContains, List.any_eq_true]
  constructor
  · rintro ⟨r, member, holds⟩ point ⟨lower, upper⟩
    obtain ⟨start, finish⟩ := (within r member).mp holds
    exact ⟨r.span, List.mem_map_of_mem member, le_trans start lower, lt_of_lt_of_le upper finish⟩
  · intro inside
    -- Neighbouring ranges never touch, so what is covered is covered by one of them.
    obtain ⟨span, member, bounds⟩ :=
      normal.separated.exists_span_of_subset (Nat.lt_add_of_pos_right sized) inside
    obtain ⟨r, inRanges, rfl⟩ := List.mem_map.mp member
    exact ⟨r, inRanges, (within r inRanges).mpr bounds⟩

theorem total_foldl {ranges : List Range} {total : UInt64} (normal : Normal ranges)
    (below : ∀ r ∈ ranges, total.toNat ≤ r.base.toNat) :
    (ranges.foldl (fun total r => total + r.size) total).toNat =
      total.toNat + (ranges.map fun r => r.size.toNat).sum := by
  -- The sizes seen so far sum to no more than the start of what is left, so no sum wraps.
  induction ranges generalizing total with
  | nil => simp
  | cons r rest ih =>
      have room := below r (by simp)
      have noWrap := normal.noWrap r (by simp)
      have sum : (total + r.size).toNat = total.toNat + r.size.toNat := by
        rw [UInt64.toNat_add]
        omega
      rw [List.foldl_cons, ih (normal.sublist (List.sublist_cons_self r rest)), sum, List.map_cons,
        List.sum_cons, Nat.add_assoc]
      intro later member
      have := (List.pairwise_cons.mp normal.apart).1 later member
      omega

theorem rangesetTotal_toNat {s : Rangeset} (normal : Normal s.r) :
    (rangesetTotal s).toNat = (s.r.map fun r => r.size.toNat).sum := by
  have below : ∀ r ∈ s.r, (0 : UInt64).toNat ≤ r.base.toNat := by simp
  rw [rangesetTotal, total_foldl normal below, UInt64.toNat_zero, Nat.zero_add]

/-- The rangesets that any sequence of operations makes out of empty ones, with every
allocation granted. The operands of `rangeset_subtract_set` and `rangeset_copy` are
rangesets of their own, as in every caller. -/
inductive Built : Rangeset → Prop
  | init : Built rangesetInit
  | add {s} (base size : UInt64) : Built s → Built (rangesetAdd true s base size).2
  | subtract {s} (base size : UInt64) : Built s → Built (rangesetSubtract true s base size).2
  | subtractSet {s minus} : Built s → Built minus →
      Built (rangesetSubtractSet (fun _ => true) s minus).2
  | copy {dst src} : Built dst → Built src → Built (rangesetCopy (fun _ => true) dst src).2

theorem rangesetAdd_granted (s : Rangeset) (base size : UInt64) (sized : 0 < size.toNat)
    (fits : base.toNat + size.toNat < 2 ^ 64) : (rangesetAdd true s base size).1 = 0 :=
  (rangesetAdd_accepts true sized fits).resolve_right (by simp)

theorem rangesetSubtract_granted (s : Rangeset) (base size : UInt64) (sized : 0 < size.toNat)
    (fits : base.toNat + size.toNat < 2 ^ 64) : (rangesetSubtract true s base size).1 = 0 :=
  (rangesetSubtract_accepts true sized fits).resolve_right (by simp)

theorem Built.normal {s : Rangeset} (built : Built s) : Normal s.r := by
  induction built with
  | init => exact normal_nil
  | add base size _ ih =>
      by_cases valid : 0 < size.toNat ∧ base.toNat + size.toNat < 2 ^ 64
      · exact (rangesetAdd_correct ih (rangesetAdd_granted _ base size valid.1 valid.2)).1
      · rwa [rangesetAdd_rejects true (by omega)]
  | subtract base size _ ih =>
      by_cases valid : 0 < size.toNat ∧ base.toNat + size.toNat < 2 ^ 64
      · exact (rangesetSubtract_correct ih (rangesetSubtract_granted _ base size valid.1 valid.2)).1
      · rwa [rangesetSubtract_rejects true (by omega)]
  | subtractSet _ _ ih minusNormal =>
      exact (rangesetSubtractSet_correct ih
        (rangesetEach_result minusNormal.valid rangesetSubtract_granted)).1
  | copy _ _ _ srcNormal =>
      rwa [rangesetCopy_correct srcNormal (rangesetEach_result srcNormal.valid rangesetAdd_granted)]

/-- Every reachable rangeset is in normal form, each operation on it is the set operation it
is named for and refuses bad arguments unchanged, and equal sets are equal arrays. -/
theorem built_operations_exact {s t : Rangeset} (built : Built s) (other : Built t)
    (base size : UInt64) :
    Normal s.r ∧
      (size.toNat = 0 ∨ 2 ^ 64 ≤ base.toNat + size.toNat →
        rangesetAdd true s base size = (-EINVAL, s) ∧
          rangesetSubtract true s base size = (-EINVAL, s)) ∧
      (0 < size.toNat ∧ base.toNat + size.toNat < 2 ^ 64 →
        (rangesetAdd true s base size).1 = 0 ∧
          addresses (rangesetAdd true s base size).2.r =
            addresses s.r ∪ Set.Ico base.toNat (base.toNat + size.toNat) ∧
          (rangesetSubtract true s base size).1 = 0 ∧
          addresses (rangesetSubtract true s base size).2.r =
            addresses s.r \ Set.Ico base.toNat (base.toNat + size.toNat)) ∧
      (rangesetSubtractSet (fun _ => true) s t).1 = 0 ∧
      addresses (rangesetSubtractSet (fun _ => true) s t).2.r = addresses s.r \ addresses t.r ∧
      (rangesetCopy (fun _ => true) s t).1 = 0 ∧
      (rangesetCopy (fun _ => true) s t).2.r = t.r ∧
      (addresses s.r = addresses t.r → s.r = t.r) := by
  have normal := built.normal
  have otherNormal := other.normal
  have subtracted : (rangesetSubtractSet (fun _ => true) s t).1 = 0 :=
    rangesetEach_result otherNormal.valid rangesetSubtract_granted
  have copied : (rangesetCopy (fun _ => true) s t).1 = 0 :=
    rangesetEach_result otherNormal.valid rangesetAdd_granted
  refine ⟨normal, ?_, ?_, subtracted, (rangesetSubtractSet_correct normal subtracted).2, copied,
    rangesetCopy_correct otherNormal copied, normal.eq_of_addresses_eq otherNormal⟩
  · intro invalid
    exact ⟨rangesetAdd_rejects true invalid, rangesetSubtract_rejects true invalid⟩
  · rintro ⟨sized, fits⟩
    have added := rangesetAdd_granted s base size sized fits
    have removed := rangesetSubtract_granted s base size sized fits
    exact ⟨added, (rangesetAdd_correct normal added).2, removed,
      (rangesetSubtract_correct normal removed).2⟩

theorem built_operations_exact_page :
    Built (rangesetAdd true rangesetInit 4096 4096).2 ∧
      addresses (rangesetSubtract true (rangesetAdd true rangesetInit 4096 4096).2 6000 100).2.r =
        addresses (rangesetAdd true rangesetInit 4096 4096).2.r \ Set.Ico 6000 6100 := by
  have built : Built (rangesetAdd true rangesetInit 4096 4096).2 := Built.add 4096 4096 Built.init
  have exact := built_operations_exact built Built.init 6000 100
  exact ⟨built, (exact.2.2.1 (by decide)).2.2.2⟩

example : (rangesetSubtract true (rangesetAdd true rangesetInit 4096 4096).2 6000 100).2.r =
    [⟨4096, 1904⟩, ⟨6100, 2092⟩] := by decide

end Kmorph
