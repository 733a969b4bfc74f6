import Mathlib.Data.List.TakeWhile
import Mathlib.Order.Interval.Set.LinearOrder
import Mathlib.Order.MinMax
import Mathlib.Tactic.Order

/-!
Finite unions of half-open spans over a linear order. A separated list keeps a
gap between neighbouring spans, which makes it the only such list with its
cover; `insertSpan` and `eraseSpan` are the two edits that keep a list separated.
-/

namespace SpanSets

variable {α : Type*} [LinearOrder α]

abbrev Span (α : Type*) := α × α

def cover (spans : List (Span α)) : Set α :=
  { point | ∃ span ∈ spans, point ∈ Set.Ico span.1 span.2 }

def Separated (spans : List (Span α)) : Prop :=
  (∀ span ∈ spans, span.1 < span.2) ∧ spans.Pairwise fun first second => first.2 < second.1

@[simp] theorem cover_nil : cover ([] : List (Span α)) = ∅ := by
  simp [cover]

@[simp] theorem cover_cons (span : Span α) (rest : List (Span α)) :
    cover (span :: rest) = Set.Ico span.1 span.2 ∪ cover rest := by
  ext point
  simp [cover]

@[simp] theorem cover_append (first second : List (Span α)) :
    cover (first ++ second) = cover first ∪ cover second := by
  induction first with
  | nil => simp
  | cons span rest ih => simp [ih, Set.union_assoc]

theorem mem_cover {spans : List (Span α)} {point : α} :
    point ∈ cover spans ↔ ∃ span ∈ spans, span.1 ≤ point ∧ point < span.2 :=
  Iff.rfl

theorem separated_nil : Separated ([] : List (Span α)) := by
  simp [Separated]

theorem separated_cons {span : Span α} {rest : List (Span α)} :
    Separated (span :: rest) ↔
      span.1 < span.2 ∧ (∀ later ∈ rest, span.2 < later.1) ∧ Separated rest := by
  simp only [Separated, List.forall_mem_cons, List.pairwise_cons]
  tauto

theorem separated_append {first second : List (Span α)} :
    Separated (first ++ second) ↔
      Separated first ∧ Separated second ∧
        ∀ early ∈ first, ∀ late ∈ second, early.2 < late.1 := by
  simp only [Separated, List.forall_mem_append, List.pairwise_append]
  tauto

theorem Separated.sublist {first second : List (Span α)} (separated : Separated second)
    (sublist : first.Sublist second) : Separated first :=
  ⟨fun span member => separated.1 span (sublist.subset member), separated.2.sublist sublist⟩

theorem Separated.end_not_mem_cover {spans : List (Span α)} (separated : Separated spans)
    {span : Span α} (member : span ∈ spans) : span.2 ∉ cover spans := by
  induction spans with
  | nil => simp at member
  | cons head rest ih =>
      obtain ⟨proper, later, restSeparated⟩ := separated_cons.mp separated
      rw [cover_cons]
      rintro (⟨lower, upper⟩ | ⟨other, otherMember, lower, upper⟩)
      · rcases List.mem_cons.mp member with same | inRest
        · exact absurd upper (by simp [same])
        · have := later span inRest
          have := restSeparated.1 span inRest
          order
      · rcases List.mem_cons.mp member with same | inRest
        · have := later other otherMember
          rw [same] at lower
          order
        · exact ih restSeparated inRest ⟨other, otherMember, lower, upper⟩

theorem Separated.exists_span_of_subset {spans : List (Span α)} (separated : Separated spans)
    {lo hi : α} (proper : lo < hi) (inside : Set.Ico lo hi ⊆ cover spans) :
    ∃ span ∈ spans, span.1 ≤ lo ∧ hi ≤ span.2 := by
  obtain ⟨span, member, lower, upper⟩ := inside ⟨le_refl lo, proper⟩
  refine ⟨span, member, lower, ?_⟩
  by_contra short
  have gap : span.2 ∈ cover spans := inside ⟨le_of_lt upper, lt_of_not_ge short⟩
  exact separated.end_not_mem_cover member gap

theorem Separated.head_le {span : Span α} {rest : List (Span α)}
    (separated : Separated (span :: rest)) :
    ∀ point ∈ cover (span :: rest), span.1 ≤ point := by
  obtain ⟨proper, later, _⟩ := separated_cons.mp separated
  rintro point ⟨other, member, lower, _⟩
  rcases List.mem_cons.mp member with same | inRest
  · simpa [same] using lower
  · have := later other inRest
    order

theorem Separated.cover_rest {span : Span α} {rest : List (Span α)}
    (separated : Separated (span :: rest)) :
    cover rest = cover (span :: rest) \ Set.Ico span.1 span.2 := by
  obtain ⟨_, later, _⟩ := separated_cons.mp separated
  rw [cover_cons, Set.union_sdiff_left, Eq.comm, sdiff_eq_left, Set.disjoint_left]
  rintro point ⟨other, member, lower, _⟩ ⟨_, upper⟩
  have := later other member
  order

theorem Separated.head_end_le {first second : Span α} {rest others : List (Span α)}
    (proper : first.1 < first.2) (separated : Separated (first :: others))
    (sameStart : first.1 = second.1) (same : cover (first :: others) = cover (second :: rest)) :
    second.2 ≤ first.2 := by
  by_contra longer
  have gap := separated.end_not_mem_cover (List.mem_cons_self : first ∈ first :: others)
  rw [same] at gap
  exact gap ⟨second, by simp, by order, lt_of_not_ge longer⟩

theorem Separated.eq_of_cover_eq {first second : List (Span α)} (firstSeparated : Separated first)
    (secondSeparated : Separated second) (same : cover first = cover second) : first = second := by
  induction first generalizing second with
  | nil =>
      cases second with
      | nil => rfl
      | cons span rest =>
          have proper := secondSeparated.1 span (by simp)
          have present : span.1 ∈ cover (span :: rest) := ⟨span, by simp, le_refl _, proper⟩
          simp [← same] at present
  | cons span rest ih =>
      have proper := firstSeparated.1 span (by simp)
      have present : span.1 ∈ cover (span :: rest) := ⟨span, by simp, le_refl _, proper⟩
      cases second with
      | nil => simp [same] at present
      | cons other others =>
          have otherProper := secondSeparated.1 other (by simp)
          have otherPresent : other.1 ∈ cover (other :: others) :=
            ⟨other, by simp, le_refl _, otherProper⟩
          have sameStart : span.1 = other.1 := by
            apply le_antisymm
            · exact firstSeparated.head_le _ (same ▸ otherPresent)
            · exact secondSeparated.head_le _ (same ▸ present)
          have sameEnd : span.2 = other.2 := by
            apply le_antisymm
            · exact Separated.head_end_le otherProper secondSeparated sameStart.symm same.symm
            · exact Separated.head_end_le proper firstSeparated sameStart same
          have sameSpan : span = other := Prod.ext sameStart sameEnd
          subst other
          have sameRest : cover rest = cover others := by
            rw [firstSeparated.cover_rest, secondSeparated.cover_rest, same]
          rw [ih (separated_cons.mp firstSeparated).2.2 (separated_cons.mp secondSeparated).2.2
            sameRest]

/-- Merge into `[lo, hi)` the leading spans that start no later than its running end. -/
def absorb (lo hi : α) : List (Span α) → Span α × List (Span α)
  | [] => ((lo, hi), [])
  | span :: rest =>
      if span.1 ≤ hi then absorb (min lo span.1) (max hi span.2) rest
      else ((lo, hi), span :: rest)

def insertSpan (lo hi : α) (spans : List (Span α)) : List (Span α) :=
  let merged := absorb lo hi (spans.dropWhile fun span => span.2 < lo)
  (spans.takeWhile fun span => span.2 < lo) ++ merged.1 :: merged.2

theorem absorb_separated {lo hi : α} {spans : List (Span α)} (separated : Separated spans)
    (proper : lo < hi) : Separated ((absorb lo hi spans).1 :: (absorb lo hi spans).2) := by
  induction spans generalizing lo hi with
  | nil => simpa [absorb, Separated] using proper
  | cons span rest ih =>
      obtain ⟨spanProper, later, restSeparated⟩ := separated_cons.mp separated
      simp only [absorb]
      split
      · apply ih restSeparated
        exact lt_of_le_of_lt (min_le_left _ _) (lt_of_lt_of_le proper (le_max_left _ _))
      · rename_i beyond
        refine separated_cons.mpr ⟨proper, ?_, separated⟩
        intro other member
        rcases List.mem_cons.mp member with same | inRest
        · simpa [same] using beyond
        · have := later other inRest
          order

theorem absorb_above {lo hi bound : α} {spans : List (Span α)} (above : bound < lo)
    (allAbove : ∀ span ∈ spans, bound < span.1) :
    ∀ span ∈ (absorb lo hi spans).1 :: (absorb lo hi spans).2, bound < span.1 := by
  induction spans generalizing lo hi with
  | nil => simpa [absorb] using above
  | cons span rest ih =>
      simp only [absorb]
      split
      · apply ih
        · exact lt_min above (allAbove span (by simp))
        · exact fun other member => allAbove other (by simp [member])
      · simpa using And.intro above (List.forall_mem_cons.mp allAbove)

theorem absorb_cover {lo hi : α} {spans : List (Span α)} (separated : Separated spans)
    (touching : ∀ span ∈ spans, lo ≤ span.2) :
    cover ((absorb lo hi spans).1 :: (absorb lo hi spans).2) = Set.Ico lo hi ∪ cover spans := by
  induction spans generalizing lo hi with
  | nil => simp [absorb]
  | cons span rest ih =>
      obtain ⟨spanProper, later, restSeparated⟩ := separated_cons.mp separated
      simp only [absorb]
      split
      · rename_i reaches
        rw [ih restSeparated, cover_cons, ← Set.union_assoc,
          Set.Ico_union_Ico' reaches (touching span (by simp))]
        intro other member
        exact le_trans (min_le_left _ _) (touching other (by simp [member]))
      · rw [cover_cons]

theorem Separated.dropWhile_touching {spans : List (Span α)} (separated : Separated spans)
    (lo : α) : ∀ span ∈ spans.dropWhile fun span => span.2 < lo, lo ≤ span.2 := by
  induction spans with
  | nil => simp
  | cons span rest ih =>
      obtain ⟨_, later, restSeparated⟩ := separated_cons.mp separated
      by_cases below : span.2 < lo
      · simpa [List.dropWhile_cons, below] using ih restSeparated
      · intro other member
        simp only [List.dropWhile_cons, below, decide_false, Bool.false_eq_true, ↓reduceIte,
          List.mem_cons] at member
        rcases member with same | inRest
        · simpa [same] using below
        · have := later other inRest
          have := restSeparated.1 other inRest
          order

theorem insertSpan_separated {lo hi : α} {spans : List (Span α)} (separated : Separated spans)
    (proper : lo < hi) : Separated (insertSpan lo hi spans) := by
  have parts : Separated ((spans.takeWhile fun span => span.2 < lo) ++
      spans.dropWhile fun span => span.2 < lo) := by
    rwa [List.takeWhile_append_dropWhile]
  obtain ⟨below, reached, ordered⟩ := separated_append.mp parts
  refine separated_append.mpr ⟨below, absorb_separated reached proper, ?_⟩
  intro early member
  apply absorb_above
  · simpa using List.mem_takeWhile_imp member
  · exact ordered early member

theorem insertSpan_cover {lo hi : α} {spans : List (Span α)} (separated : Separated spans) :
    cover (insertSpan lo hi spans) = cover spans ∪ Set.Ico lo hi := by
  have reached : Separated (spans.dropWhile fun span => span.2 < lo) :=
    separated.sublist (List.dropWhile_sublist _)
  calc cover (insertSpan lo hi spans)
      = cover (spans.takeWhile fun span => span.2 < lo) ∪
          (Set.Ico lo hi ∪ cover (spans.dropWhile fun span => span.2 < lo)) := by
        rw [insertSpan, cover_append, absorb_cover reached (separated.dropWhile_touching lo)]
    _ = cover ((spans.takeWhile fun span => span.2 < lo) ++
          spans.dropWhile fun span => span.2 < lo) ∪ Set.Ico lo hi := by
        rw [cover_append, Set.union_assoc, Set.union_comm (Set.Ico lo hi)]
    _ = cover spans ∪ Set.Ico lo hi := by rw [List.takeWhile_append_dropWhile]

theorem absorb_bounded {lo hi bound : α} {spans : List (Span α)} (below : hi < bound)
    (allBelow : ∀ span ∈ spans, span.2 < bound) :
    ∀ span ∈ (absorb lo hi spans).1 :: (absorb lo hi spans).2, span.2 < bound := by
  induction spans generalizing lo hi with
  | nil => simpa [absorb] using below
  | cons span rest ih =>
      simp only [absorb]
      split
      · apply ih
        · exact max_lt below (allBelow span (by simp))
        · exact fun other member => allBelow other (by simp [member])
      · simpa using And.intro below (List.forall_mem_cons.mp allBelow)

theorem insertSpan_bounded {lo hi bound : α} {spans : List (Span α)} (below : hi < bound)
    (allBelow : ∀ span ∈ spans, span.2 < bound) :
    ∀ span ∈ insertSpan lo hi spans, span.2 < bound := by
  intro span member
  rcases List.mem_append.mp member with early | merged
  · exact allBelow span ((List.takeWhile_subset _) early)
  · refine absorb_bounded below ?_ span merged
    exact fun other inRest => allBelow other ((List.dropWhile_sublist _).subset inRest)

def remnants (lo hi : α) (span : Span α) : List (Span α) :=
  (if span.1 < min span.2 lo then [(span.1, min span.2 lo)] else []) ++
    if max span.1 hi < span.2 then [(max span.1 hi, span.2)] else []

def eraseSpan (lo hi : α) (spans : List (Span α)) : List (Span α) :=
  spans.flatMap (remnants lo hi)

@[simp] theorem eraseSpan_nil (lo hi : α) : eraseSpan lo hi [] = [] := rfl

@[simp] theorem eraseSpan_cons (lo hi : α) (span : Span α) (rest : List (Span α)) :
    eraseSpan lo hi (span :: rest) = remnants lo hi span ++ eraseSpan lo hi rest := rfl

theorem remnants_inside {lo hi : α} {span piece : Span α} (member : piece ∈ remnants lo hi span) :
    span.1 ≤ piece.1 ∧ piece.2 ≤ span.2 := by
  simp only [remnants, List.mem_append] at member
  rcases member with left | right
  · split at left <;> simp_all
  · split at right <;> simp_all

theorem remnants_separated {lo hi : α} (proper : lo < hi) (span : Span α) :
    Separated (remnants lo hi span) := by
  refine separated_append.mpr ⟨?_, ?_, ?_⟩
  · split <;> simp_all [Separated]
  · split <;> simp_all [Separated]
  · intro early earlyMember late lateMember
    split at earlyMember
    · split at lateMember
      · simp only [List.mem_singleton] at earlyMember lateMember
        subst early late
        exact lt_of_le_of_lt (min_le_right _ _) (lt_of_lt_of_le proper (le_max_right _ _))
      · simp at lateMember
    · simp at earlyMember

theorem remnants_cover (lo hi : α) (span : Span α) :
    cover (remnants lo hi span) = Set.Ico span.1 span.2 \ Set.Ico lo hi := by
  have left : cover (if span.1 < min span.2 lo then [(span.1, min span.2 lo)] else []) =
      Set.Ico span.1 span.2 ∩ Set.Iio lo := by
    ext point
    split <;> simp_all
  have right : cover (if max span.1 hi < span.2 then [(max span.1 hi, span.2)] else []) =
      Set.Ico span.1 span.2 ∩ Set.Ici hi := by
    ext point
    split <;> simp_all
  rw [remnants, cover_append, left, right, ← Set.inter_union_distrib_left, Set.sdiff_eq]
  congr 1
  ext point
  simp only [Set.mem_union, Set.mem_Iio, Set.mem_Ici, Set.mem_compl_iff, Set.mem_Ico, not_and, not_lt]
  grind

theorem remnants_disjoint {lo hi : α} {span : Span α} (spanProper : span.1 < span.2)
    (proper : lo < hi) (disjoint : span.2 ≤ lo ∨ hi ≤ span.1) : remnants lo hi span = [span] := by
  rcases disjoint with below | above
  · have skipped : ¬ max span.1 hi < span.2 := by simp only [max_lt_iff]; order
    rw [remnants, min_eq_left below, if_pos spanProper, if_neg skipped, List.append_nil]
  · have skipped : ¬ span.1 < min span.2 lo := by simp only [lt_min_iff]; order
    rw [remnants, max_eq_left above, if_neg skipped, if_pos spanProper, List.nil_append]

theorem remnants_split {lo hi : α} {span : Span α} (proper : lo < hi) (before : span.1 < lo)
    (after : hi < span.2) : remnants lo hi span = [(span.1, lo), (hi, span.2)] := by
  have lower : min span.2 lo = lo := min_eq_right (by order)
  have upper : max span.1 hi = hi := max_eq_right (by order)
  rw [remnants, lower, upper, if_pos before, if_pos after, List.singleton_append]

theorem remnants_left {lo hi : α} {span : Span α} (before : span.1 < lo) (reached : lo < span.2)
    (within : span.2 ≤ hi) : remnants lo hi span = [(span.1, lo)] := by
  have lower : min span.2 lo = lo := min_eq_right (le_of_lt reached)
  have skipped : ¬ max span.1 hi < span.2 := by simp only [max_lt_iff]; order
  rw [remnants, lower, if_pos before, if_neg skipped, List.append_nil]

theorem remnants_right {lo hi : α} {span : Span α} (within : lo ≤ span.1) (started : span.1 < hi)
    (after : hi < span.2) : remnants lo hi span = [(hi, span.2)] := by
  have upper : max span.1 hi = hi := max_eq_right (le_of_lt started)
  have skipped : ¬ span.1 < min span.2 lo := by simp only [lt_min_iff]; order
  rw [remnants, upper, if_pos after, if_neg skipped, List.nil_append]

theorem remnants_within {lo hi : α} {span : Span α} (lower : lo ≤ span.1) (upper : span.2 ≤ hi) :
    remnants lo hi span = [] := by
  have leftSkipped : ¬ span.1 < min span.2 lo := by simp only [lt_min_iff]; order
  have rightSkipped : ¬ max span.1 hi < span.2 := by simp only [max_lt_iff]; order
  rw [remnants, if_neg leftSkipped, if_neg rightSkipped, List.append_nil]

theorem eraseSpan_above {lo hi : α} {spans : List (Span α)} (separated : Separated spans)
    (proper : lo < hi) (above : ∀ span ∈ spans, hi ≤ span.1) : eraseSpan lo hi spans = spans := by
  induction spans with
  | nil => rfl
  | cons span rest ih =>
      obtain ⟨spanProper, _, restSeparated⟩ := separated_cons.mp separated
      have tail := ih restSeparated fun other member => above other (by simp [member])
      rw [eraseSpan_cons, remnants_disjoint spanProper proper (Or.inr (above span (by simp))), tail,
        List.singleton_append]

theorem eraseSpan_separated {lo hi : α} {spans : List (Span α)} (separated : Separated spans)
    (proper : lo < hi) : Separated (eraseSpan lo hi spans) := by
  induction spans with
  | nil => exact separated_nil
  | cons span rest ih =>
      obtain ⟨_, later, restSeparated⟩ := separated_cons.mp separated
      rw [eraseSpan_cons]
      refine separated_append.mpr ⟨remnants_separated proper span, ih restSeparated, ?_⟩
      intro early earlyMember late lateMember
      obtain ⟨source, sourceMember, lateMember⟩ := List.mem_flatMap.mp lateMember
      have := (remnants_inside earlyMember).2
      have := (remnants_inside lateMember).1
      have := later source sourceMember
      order

theorem eraseSpan_bounded {lo hi bound : α} {spans : List (Span α)}
    (allBelow : ∀ span ∈ spans, span.2 < bound) : ∀ span ∈ eraseSpan lo hi spans, span.2 < bound := by
  intro piece member
  obtain ⟨source, sourceMember, pieceMember⟩ := List.mem_flatMap.mp member
  exact lt_of_le_of_lt (remnants_inside pieceMember).2 (allBelow source sourceMember)

theorem eraseSpan_cover (lo hi : α) (spans : List (Span α)) :
    cover (eraseSpan lo hi spans) = cover spans \ Set.Ico lo hi := by
  induction spans with
  | nil => simp [eraseSpan]
  | cons span rest ih =>
      rw [eraseSpan_cons, cover_append, remnants_cover, ih, cover_cons, Set.union_sdiff_distrib]

/-- The union of the blocks `[k * block, (k + 1) * block)` that lie wholly inside `points`. -/
def wholeBlocks (block : ℕ) (points : Set ℕ) : Set ℕ :=
  { point | ∃ k, point ∈ Set.Ico (k * block) ((k + 1) * block) ∧
      Set.Ico (k * block) ((k + 1) * block) ⊆ points }

def alignSpan (block : ℕ) (span : Span ℕ) : Span ℕ :=
  ((span.1 + block - 1) / block * block, span.2 / block * block)

theorem wholeBlocks_subset (block : ℕ) (points : Set ℕ) : wholeBlocks block points ⊆ points := by
  rintro point ⟨k, inside, whole⟩
  exact whole inside

theorem alignSpan_start_le {block start k : ℕ} (positive : 0 < block) :
    (start + block - 1) / block * block ≤ k * block ↔ start ≤ k * block := by
  rw [Nat.mul_le_mul_right_iff positive, Nat.div_le_iff_le_mul_add_pred positive]
  have commuted : block * k = k * block := Nat.mul_comm _ _
  omega

theorem alignSpan_le_end {block stop k : ℕ} (positive : 0 < block) :
    (k + 1) * block ≤ stop / block * block ↔ (k + 1) * block ≤ stop := by
  rw [Nat.mul_le_mul_right_iff positive, Nat.le_div_iff_mul_le positive]

theorem mem_block_iff {block low high point k : ℕ}
    (inside : point ∈ Set.Ico (k * block) ((k + 1) * block)) :
    point ∈ Set.Ico (low * block) (high * block) ↔ low * block ≤ k * block ∧
      (k + 1) * block ≤ high * block := by
  have positive : 0 < block := by
    by_contra zero
    have : block = 0 := by omega
    simp [this] at inside
  rw [Set.mem_Ico, Nat.mul_le_mul_right_iff positive, Nat.mul_le_mul_right_iff positive]
  constructor
  · rintro ⟨lower, upper⟩
    have lowerBlock := Nat.lt_of_mul_lt_mul_right (lt_of_le_of_lt lower inside.2)
    have upperBlock := Nat.lt_of_mul_lt_mul_right (lt_of_le_of_lt inside.1 upper)
    omega
  · rintro ⟨lower, upper⟩
    exact ⟨le_trans (Nat.mul_le_mul_right _ lower) inside.1,
      lt_of_lt_of_le inside.2 (Nat.mul_le_mul_right _ upper)⟩

theorem Separated.wholeBlocks_cover {block : ℕ} {spans : List (Span ℕ)}
    (separated : Separated spans) (positive : 0 < block) :
    wholeBlocks block (cover spans) = cover (spans.map (alignSpan block)) := by
  ext point
  constructor
  · rintro ⟨k, inside, whole⟩
    obtain ⟨span, member, lower, upper⟩ :=
      separated.exists_span_of_subset (lt_of_le_of_lt inside.1 inside.2) whole
    refine ⟨alignSpan block span, List.mem_map_of_mem member, (mem_block_iff inside).mpr ?_⟩
    exact ⟨(alignSpan_start_le positive).mpr lower, (alignSpan_le_end positive).mpr upper⟩
  · rintro ⟨aligned, member, within⟩
    obtain ⟨span, spanMember, rfl⟩ := List.mem_map.mp member
    have inside : point ∈ Set.Ico (point / block * block) ((point / block + 1) * block) :=
      ⟨Nat.div_mul_le_self _ _, Nat.lt_mul_of_div_lt (Nat.lt_succ_self _) positive⟩
    have bounds := (mem_block_iff inside).mp within
    refine ⟨point / block, inside, ?_⟩
    rintro other ⟨lower, upper⟩
    exact ⟨span, spanMember, le_trans ((alignSpan_start_le positive).mp bounds.1) lower,
      lt_of_lt_of_le upper ((alignSpan_le_end positive).mp bounds.2)⟩

end SpanSets
