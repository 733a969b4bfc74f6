import Kmorph.MountTrees
import Mathlib.Data.List.Infix

/-!
Paths in a tree of mounts. A path is walked name by name, and the mounts stacked on
a place are crossed when it is entered. A place is on the way of one path only, so
what is put at a place changes the paths that lead over it and no others.
-/

namespace MountTrees

theorem not_isPrefix_self {α : Type*} (l : List α) (a : α) : ¬ l ++ [a] <+: l := by
  intro isPrefix
  have shorter := isPrefix.length_le
  rw [List.length_append, List.length_singleton] at shorter
  omega

namespace Tree

variable {φ ν : Type*} [DecidableEq ν] {t t' : Tree φ ν} {m x : ℕ} {p q start : Place ν}

def lookup (t : Tree φ ν) (start : Place ν) (names : List ν) : Place ν :=
  names.foldl (fun p name => t.top (p.1, p.2 ++ [name])) start

inductive Reaches (t : Tree φ ν) (start : Place ν) : List ν → Place ν → Prop
  | start : Reaches t start [] start
  | step {names : List ν} {p : Place ν} (name : ν) (reached : Reaches t start names p) :
      Reaches t start (names ++ [name]) (p.1, p.2 ++ [name])
  | cross {names : List ν} {p : Place ν} {m : ℕ} (reached : Reaches t start names p)
      (attached : t.mountAt p = some m) : Reaches t start names (m, [])

variable {names others source target : List ν} {name : ν}

theorem Reaches.rank {rank : ℕ → ℕ} (rises : ∀ p m, t.mountAt p = some m → rank p.1 < rank m)
    (reached : t.Reaches start names p) :
    names = [] ∧ p = start ∨ rank start.1 < rank p.1 ∨
      rank start.1 = rank p.1 ∧ start.2.length < p.2.length := by
  induction reached with
  | start => exact .inl ⟨rfl, rfl⟩
  | step name _ ih =>
      right
      rcases ih with ⟨rfl, rfl⟩ | higher | ⟨same, longer⟩
      · exact .inr ⟨rfl, by simp⟩
      · exact .inl higher
      · exact .inr ⟨same, by simp; omega⟩
  | cross _ attached ih =>
      have above := rises _ _ attached
      right
      left
      rcases ih with ⟨rfl, rfl⟩ | higher | ⟨same, longer⟩
      · exact above
      · exact higher.trans above
      · exact same ▸ above

theorem Reaches.of_start (reached : t.Reaches start names start) : names = [] := by
  obtain ⟨rank, rises⟩ := t.exists_rank
  rcases reached.rank rises with ⟨empty, _⟩ | higher | ⟨_, longer⟩
  · exact empty
  · omega
  · omega

theorem Reaches.inside {path : List ν} (reached : t.Reaches start names (x, path ++ [name])) :
    names = [] ∧ start = (x, path ++ [name]) ∨
      ∃ before, names = before ++ [name] ∧ t.Reaches start before (x, path) := by
  generalize place : (x, path ++ [name]) = p at reached
  cases reached with
  | start => exact .inl ⟨rfl, rfl⟩
  | step last earlier =>
      obtain ⟨rfl, same⟩ := Prod.mk.inj place
      obtain ⟨rfl, ends⟩ := List.append_inj' same rfl
      cases ends
      exact .inr ⟨_, rfl, earlier⟩
  | cross =>
      obtain ⟨_, same⟩ := Prod.mk.inj place
      simp at same

theorem Reaches.crossed (reached : t.Reaches start names (m, [])) :
    names = [] ∧ start = (m, []) ∨ ∃ p, t.mountAt p = some m ∧ t.Reaches start names p := by
  generalize place : ((m, []) : Place ν) = p at reached
  cases reached with
  | start => exact .inl ⟨rfl, rfl⟩
  | step =>
      obtain ⟨_, same⟩ := Prod.mk.inj place
      simp at same
  | cross earlier attached =>
      cases place
      exact .inr ⟨_, attached, earlier⟩

/-- A place is on the way of one path only. -/
theorem Reaches.unique (one : t.Reaches start names p) (two : t.Reaches start others p) : names = others := by
  induction one generalizing others with
  | start => exact two.of_start.symm
  | @step names p name reached ih =>
      rcases two.inside with ⟨_, rfl⟩ | ⟨before, rfl, earlier⟩
      · exact absurd (reached.step name).of_start (by simp)
      · rw [ih earlier]
  | cross reached attached ih =>
      rcases two.crossed with ⟨rfl, rfl⟩ | ⟨q, same, earlier⟩
      · exact (reached.cross attached).of_start
      · obtain rfl := mountAt_inj attached same
        exact ih earlier

theorem Reaches.top (reached : t.Reaches start names p) : t.Reaches start names (t.top p) := by
  induction p using t.stack_induction with
  | bare p bare => rwa [top_of_bare bare]
  | covered p m covered ih =>
      rw [top_of_covered covered]
      exact ih (reached.cross covered)

theorem lookup_concat :
    t.lookup start (names ++ [name]) =
      t.top ((t.lookup start names).1, (t.lookup start names).2 ++ [name]) := by
  simp [lookup]

theorem reaches_lookup (t : Tree φ ν) (start : Place ν) (names : List ν) :
    t.Reaches start names (t.lookup start names) := by
  induction names using List.reverseRecOn with
  | nil => exact .start
  | append_singleton names name ih =>
      rw [lookup_concat]
      exact (ih.step name).top

theorem mountAt_lookup (found : names ≠ []) : t.mountAt (t.lookup start names) = none := by
  cases names using List.reverseRecOn with
  | nil => exact absurd rfl found
  | append_singleton names name =>
      rw [lookup_concat]
      exact t.mountAt_top _

/-- A lookup that finds the root of a mount has crossed to it. -/
theorem attached_lookup (found : t.lookup start names = (m, [])) (nonempty : names ≠ []) :
    ∃ p, t.mountAt p = some m ∧ t.Reaches start names p := by
  have reached := t.reaches_lookup start names
  rw [found] at reached
  rcases reached.crossed with ⟨empty, _⟩ | crossed
  · exact absurd empty nonempty
  · exact crossed

theorem Reaches.mount (reached : t.Reaches start names p) :
    p.1 = start.1 ∨ ∃ e ∈ t.entries, e.mount = p.1 := by
  induction reached with
  | start => exact .inl rfl
  | step _ _ ih => exact ih
  | cross _ attached _ =>
      obtain ⟨e, inside, rfl, _⟩ := mountAt_eq_some.mp attached
      exact .inr ⟨e, inside, rfl⟩

theorem Reaches.agrees (reached : t.Reaches start names p)
    (same : ∀ before q, before <+: names → t.Reaches start before q → t'.mountAt q = t.mountAt q) :
    t'.Reaches start names p := by
  induction reached with
  | start => exact .start
  | step name _ ih =>
      refine (ih fun before q isPrefix => same before q ?_).step name
      exact isPrefix.trans (List.prefix_append _ _)
  | cross earlier attached ih =>
      refine (ih same).cross ?_
      rw [same _ _ (List.prefix_refl _) earlier, attached]

/-- Where every covered place on the way is covered as before, the way goes on from its old end. -/
theorem top_agrees (reached : t.Reaches start names p)
    (same : ∀ q, t.Reaches start names q → t.mountAt q ≠ none → t'.mountAt q = t.mountAt q) :
    t'.top p = t'.top (t.top p) := by
  induction p using t.stack_induction with
  | bare p bare => rw [top_of_bare bare]
  | covered p m covered ih =>
      have still : t'.mountAt p = some m := by rw [same p reached (by simp [covered]), covered]
      rw [top_of_covered still, top_of_covered covered]
      exact ih (reached.cross covered)

theorem lookup_agrees
    (same : ∀ before q, before <+: names → t.Reaches start before q → t'.mountAt q = t.mountAt q) :
    t'.lookup start names = t.lookup start names := by
  induction names using List.reverseRecOn with
  | nil => rfl
  | append_singleton names name ih =>
      have before := ih fun before q isPrefix => same before q (isPrefix.trans (List.prefix_append _ _))
      have reached := (t.reaches_lookup start names).step name
      rw [lookup_concat, lookup_concat, before,
        top_agrees reached fun q onWay _ => same _ q (List.prefix_refl _) onWay]
      apply top_of_bare
      rw [same _ _ (List.prefix_refl _) reached.top]
      exact t.mountAt_top _

/-- Nowhere on the way of a path is the mount crossed. -/
def Avoids (t : Tree φ ν) (start : Place ν) (names : List ν) (m : ℕ) : Prop :=
  ∀ before q, before <+: names → t.Reaches start before q → t.mountAt q ≠ some m

theorem Avoids.shorter (avoids : t.Avoids start names m) (isPrefix : others <+: names) :
    t.Avoids start others m :=
  fun before q shorter => avoids before q (shorter.trans isPrefix)

theorem avoids_of_lookup (found : t.lookup start source = (m, [])) (nonempty : source ≠ [])
    (aside : ¬ source <+: names) : t.Avoids start names m := by
  intro before q isPrefix reached attached
  obtain ⟨p, attachedHere, crossed⟩ := attached_lookup found nonempty
  obtain rfl := mountAt_inj attached attachedHere
  rw [reached.unique crossed] at isPrefix
  exact aside isPrefix

/-- A mount that a path crosses is above no place that another path leads to. -/
theorem not_ancestor_of_lookup (found : t.lookup start source = (m, [])) (nonempty : source ≠ [])
    (aside : ¬ source <+: names) (reached : t.Reaches start names p) : m ∉ t.ancestors p.1 := by
  have avoids := avoids_of_lookup found nonempty aside
  clear aside
  induction reached with
  | start =>
      obtain ⟨rank, rises⟩ := t.exists_rank
      obtain ⟨q, attached, crossed⟩ := attached_lookup found nonempty
      intro above
      have lower := rank_le_of_ancestor rises above
      have higher := rises q m attached
      rcases crossed.rank rises with ⟨empty, _⟩ | further | ⟨same, _⟩
      · exact nonempty empty
      · omega
      · omega
  | step name _ ih => exact ih (avoids.shorter (List.prefix_append _ _))
  | @cross names p x reached attached ih =>
      rw [mem_ancestors, mountpoint_eq_some.mpr attached]
      rintro (rfl | ⟨q, same, above⟩)
      · exact avoids names p (List.prefix_refl _) reached attached
      · cases same
        exact ih avoids above

namespace Puts

variable (puts : Puts t t' m p)

include puts

theorem mountAt_other (elsewhere : q ≠ p) (other : t.mountAt q ≠ some m) : t'.mountAt q = t.mountAt q := by
  rw [puts.mountAt_put, if_neg elsewhere, if_neg other]

theorem lookup_other (reached : t.Reaches start target p) (aside : ¬ target <+: names)
    (avoids : t.Avoids start names m) : t'.lookup start names = t.lookup start names := by
  apply lookup_agrees
  intro before q isPrefix onWay
  apply puts.mountAt_other
  · rintro rfl
    rw [onWay.unique reached] at isPrefix
    exact aside isPrefix
  · exact avoids before q isPrefix onWay

/-- The way that ended at the place now goes on to the mount. -/
theorem top_target (reached : t.Reaches start names q) (ended : t.top q = p) (avoids : t.Avoids start names m)
    (bare : t.mountAt (m, []) = none) (apart : p ≠ (m, [])) : t'.top q = (m, []) := by
  rw [top_agrees reached, ended, top_of_covered (m := m), top_of_bare]
  · rw [puts.mountAt_other (Ne.symm apart) (by simp [bare]), bare]
  · rw [puts.mountAt_put, if_pos rfl]
  · intro q crossed covered
    apply puts.mountAt_other
    · rintro rfl
      exact covered puts.free
    · exact avoids _ q (List.prefix_refl _) crossed

theorem lookup_target (found : t.lookup start target = p) (nonempty : target ≠ [])
    (avoids : t.Avoids start target m) (bare : t.mountAt (m, []) = none) (apart : p ≠ (m, [])) :
    t'.lookup start target = (m, []) := by
  cases target using List.reverseRecOn with
  | nil => exact absurd rfl nonempty
  | append_singleton names name =>
      have reached := t.reaches_lookup start (names ++ [name])
      rw [found] at reached
      have before : t'.lookup start names = t.lookup start names :=
        puts.lookup_other reached (not_isPrefix_self names name) (avoids.shorter (List.prefix_append _ _))
      rw [lookup_concat] at found ⊢
      rw [before]
      exact puts.top_target ((t.reaches_lookup start names).step name) found avoids bare apart

theorem top_source (attached : t.mountAt q = some m) (found : t.top start = (m, []))
    (inside : start ≠ (m, [])) : t'.top start = q := by
  induction start using t.stack_induction with
  | bare start bare =>
      rw [top_of_bare bare] at found
      exact absurd found inside
  | covered start x covered ih =>
      have elsewhere : start ≠ p := by
        rintro rfl
        rw [puts.free] at covered
        cases covered
      by_cases last : x = m
      · obtain rfl := mountAt_inj attached (last ▸ covered)
        apply top_of_bare
        rw [puts.mountAt_put, if_neg elsewhere, if_pos attached]
      · have still : t'.mountAt start = some x := by
          rw [puts.mountAt_other elsewhere (by simpa [covered] using last), covered]
        rw [top_of_covered still]
        rw [top_of_covered covered] at found
        exact ih found (by simpa using last)

theorem lookup_source (found : t.lookup start source = (m, [])) (nonempty : source ≠ [])
    (reached : t.Reaches start target p) (aside : ¬ target <+: source) (attached : t.mountAt q = some m) :
    t'.lookup start source = q := by
  cases source using List.reverseRecOn with
  | nil => exact absurd rfl nonempty
  | append_singleton names name =>
      have before : t'.lookup start names = t.lookup start names :=
        puts.lookup_other reached (fun isPrefix => aside (isPrefix.trans (List.prefix_append _ _)))
          (avoids_of_lookup found nonempty (not_isPrefix_self names name))
      rw [lookup_concat] at found ⊢
      rw [before]
      exact puts.top_source attached found (by simp)

end Puts

end Tree

end MountTrees
