import Mathlib.Data.List.Infix

/-!
Safety of a growing history: a relation that every entry keeps to the entries
before it.
-/

namespace Histories

variable {α : Type*} {P Q : List α → α → Prop} {history new : List α} {entry : α}

def Always (P : List α → α → Prop) (history : List α) : Prop :=
  ∀ before entry, before ++ [entry] <+: history → P before entry

@[simp] theorem always_nil : Always P [] := by
  intro before entry found
  simp at found

theorem always_iff_get :
    Always P history ↔ ∀ i : Fin history.length, P (history.take i) (history.get i) := by
  constructor
  · intro always i
    refine always _ _ ?_
    rw [List.get_eq_getElem, List.take_append_getElem i.isLt]
    exact List.take_prefix _ _
  · rintro each before entry ⟨rest, rfl⟩
    have here := each ⟨before.length, by simp⟩
    simpa using here

instance [∀ before entry, Decidable (P before entry)] : Decidable (Always P history) :=
  decidable_of_iff _ always_iff_get.symm

theorem always_append_singleton :
    Always P (history ++ [entry]) ↔ Always P history ∧ P history entry := by
  constructor
  · intro always
    refine ⟨?_, always history entry (List.prefix_refl _)⟩
    intro before other found
    exact always before other (found.trans (List.prefix_append _ _))
  · rintro ⟨old, last⟩ before other found
    rcases List.prefix_concat_iff.mp found with whole | inside
    · obtain ⟨rfl, same⟩ := List.append_inj' whole rfl
      obtain rfl : other = entry := by simpa using same
      exact last
    · exact old before other inside

theorem Always.append (old : Always P history)
    (fresh : ∀ before entry, before ++ [entry] <+: new → P (history ++ before) entry) :
    Always P (history ++ new) := by
  induction new using List.reverseRecOn with
  | nil => simpa using old
  | append_singleton new entry ih =>
      rw [← List.append_assoc, always_append_singleton]
      refine ⟨ih ?_, fresh new entry (List.prefix_refl _)⟩
      intro before other found
      exact fresh before other (found.trans (List.prefix_append _ _))

theorem Always.append_free (old : Always P history)
    (free : ∀ entry ∈ new, ∀ before, P before entry) : Always P (history ++ new) := by
  refine old.append ?_
  intro before entry found
  exact free entry (found.subset (by simp)) _

/-- The invariant rule of a run: what every step that is allowed where it is taken keeps. -/
theorem Always.foldl_holds {σ : Type*} {step : σ → α → σ} (allowed : σ → α → Prop)
    (holds : σ → Prop) {s : σ} (always : Always (fun before entry => allowed (before.foldl step s) entry) history)
    (start : holds s) (kept : ∀ s entry, holds s → allowed s entry → holds (step s entry)) :
    holds (history.foldl step s) := by
  induction history using List.reverseRecOn with
  | nil => exact start
  | append_singleton history entry ih =>
      obtain ⟨earlier, last⟩ := always_append_singleton.mp always
      rw [List.foldl_append]
      exact kept _ entry (ih earlier) last

end Histories
