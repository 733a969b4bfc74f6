import Mathlib.Data.List.Basic

/-! Results of calls that may fail, and of loops over such calls. -/

namespace Fallible

variable {ε ε' α β γ : Type}

theorem bind_eq_ok {result : Except ε α} {next : α → Except ε β} {b : β} :
    result >>= next = .ok b ↔ ∃ a, result = .ok a ∧ next a = .ok b := by
  cases result with
  | error err => simp [bind, Except.bind]
  | ok a => simp [bind, Except.bind]

theorem mapError_eq_ok {result : Except ε α} {f : ε → ε'} {a : α} :
    result.mapError f = .ok a ↔ result = .ok a := by
  cases result with
  | error err => simp [Except.mapError]
  | ok b => simp [Except.mapError]

theorem toOption_eq_some {result : Except ε α} {a : α} : result.toOption = some a ↔ result = .ok a := by
  cases result with
  | error err => simp [Except.toOption]
  | ok b => simp [Except.toOption]

theorem mapM_ok {f : α → Except ε β} {g : α → β} {l : List α} (ok : ∀ a ∈ l, f a = .ok (g a)) :
    l.mapM f = .ok (l.map g) := by
  induction l with
  | nil => rfl
  | cons a l ih =>
      rw [List.mapM_cons, ok a (by simp), ih fun b member => ok b (by simp [member])]
      rfl

theorem mapM_filterMap {f : α → Except ε β} {g : α → Option γ} {h : β → γ} {l : List α} {out : List β}
    (each : ∀ a ∈ l, ∀ b, f a = .ok b → g a = some (h b)) (ok : l.mapM f = .ok out) :
    l.filterMap g = out.map h := by
  induction l generalizing out with
  | nil =>
      cases ok
      rfl
  | cons a l ih =>
      rw [List.mapM_cons] at ok
      obtain ⟨b, first, ok⟩ := bind_eq_ok.mp ok
      obtain ⟨rest, later, ok⟩ := bind_eq_ok.mp ok
      cases ok
      rw [List.filterMap_cons, each a List.mem_cons_self b first,
        ih (fun other member => each other (List.mem_cons_of_mem a member)) later, List.map_cons]

/-- What each call keeps the loop keeps. -/
theorem foldlM_holds {call : β → α → Except ε β} {holds : β → Prop} {l : List α} {s after : β} (start : holds s)
    (each : ∀ a ∈ l, ∀ s after, holds s → call s a = .ok after → holds after)
    (folded : l.foldlM call s = .ok after) : holds after := by
  induction l generalizing s with
  | nil =>
      cases folded
      exact start
  | cons a l ih =>
      rw [List.foldlM_cons] at folded
      obtain ⟨middle, called, folded⟩ := bind_eq_ok.mp folded
      have first := each a List.mem_cons_self s middle start called
      exact ih first (fun other member => each other (List.mem_cons_of_mem a member)) folded

end Fallible
