import Mathlib.Data.List.Basic

/-!
Trees flattened to tokens: a group is entered, holds items and other groups, and is
left. A scan walks over tokens and counts the groups it is in, until one starts that
it looks for, the group it began in is left, or the tokens are over.
-/

namespace Brackets

inductive Token (α β : Type*)
  | enter (a : α)
  | item (b : β)
  | leave
deriving DecidableEq

variable {α β : Type*}

inductive Balanced : List (Token α β) → Prop
  | nil : Balanced []
  | item (b : β) {rest : List (Token α β)} : Balanced rest → Balanced (.item b :: rest)
  | group (a : α) {inner rest : List (Token α β)} : Balanced inner → Balanced rest →
      Balanced (.enter a :: (inner ++ .leave :: rest))

theorem Balanced.append {first second : List (Token α β)} (left : Balanced first) (right : Balanced second) :
    Balanced (first ++ second) := by
  induction left with
  | nil => exact right
  | item b _ ih => exact .item b ih
  | group a inner _ _ ih =>
      rw [List.cons_append, List.append_assoc, List.cons_append]
      exact .group a inner ih

theorem Balanced.items (bs : List β) : Balanced (bs.map (.item : β → Token α β)) := by
  induction bs with
  | nil => exact .nil
  | cons b bs ih => exact .item b ih

inductive Scanned (α β : Type*)
  | found (depth : ℕ) (a : α) (rest : List (Token α β))
  | left (rest : List (Token α β))
  | ended (depth : ℕ)

/-- The depth that `stop` is asked about is that inside of the group. -/
def scan (stop : ℕ → α → Bool) : ℕ → List (Token α β) → Scanned α β
  | depth, [] => .ended depth
  | depth, .enter a :: rest =>
      if stop (depth + 1) a then .found (depth + 1) a rest else scan stop (depth + 1) rest
  | depth, .item _ :: rest => scan stop depth rest
  | 0, .leave :: rest => .left rest
  | depth + 1, .leave :: rest => scan stop depth rest

section Scans

variable {stop : ℕ → α → Bool} {depth : ℕ} {block rest : List (Token α β)}

/-- A scan that stops at every group, taken up again behind each that is not looked for. -/
theorem scan_step (stop : ℕ → α → Bool) (depth : ℕ) (tokens : List (Token α β)) :
    scan stop depth tokens =
      match scan (fun _ _ => true) depth tokens with
      | .found depth a rest => if stop depth a then .found depth a rest else scan stop depth rest
      | .left rest => .left rest
      | .ended depth => .ended depth := by
  induction tokens generalizing depth with
  | nil => rfl
  | cons token tokens ih =>
      cases token with
      | enter a => rfl
      | item b => exact ih depth
      | leave =>
          cases depth with
          | zero => rfl
          | succ depth => exact ih depth

theorem scan_found {depth' : ℕ} {a : α} {tokens : List (Token α β)}
    (found : scan stop depth tokens = .found depth' a rest) : 0 < depth' ∧ .enter a :: rest <:+ tokens := by
  have later {token : Token α β} {tokens : List (Token α β)} (inside : 0 < depth' ∧ .enter a :: rest <:+ tokens) :
      0 < depth' ∧ .enter a :: rest <:+ token :: tokens :=
    ⟨inside.1, inside.2.trans (List.suffix_cons _ _)⟩
  induction tokens generalizing depth with
  | nil => cases found
  | cons token tokens ih =>
      cases token with
      | enter b =>
          rw [scan] at found
          split at found
          · cases found
            exact ⟨Nat.succ_pos _, List.suffix_rfl⟩
          · exact later (ih found)
      | item b => exact later (ih found)
      | leave =>
          cases depth with
          | zero => cases found
          | succ depth => exact later (ih found)

theorem scan_items (stop : ℕ → α → Bool) (depth : ℕ) (bs : List β) (rest : List (Token α β)) :
    scan stop depth (bs.map .item ++ rest) = scan stop depth rest := by
  induction bs with
  | nil => rfl
  | cons b bs ih => exact ih

/-- Nothing inside of a balanced part is looked for, and behind it the scan is as deep as before. -/
theorem Balanced.scan (balanced : Balanced block) (below : ∀ depth' > depth, ∀ a, stop depth' a = false) :
    scan stop depth (block ++ rest) = Brackets.scan stop depth rest := by
  induction balanced generalizing depth rest with
  | nil => rfl
  | item b _ ih => exact ih below
  | @group a inner after _ _ ihInner ihRest =>
      have skipped : stop (depth + 1) a = false := below _ (Nat.lt_succ_self depth) a
      rw [List.cons_append, List.append_assoc, List.cons_append, Brackets.scan, skipped, if_neg (by simp),
        ihInner fun depth' deeper => below depth' (by omega), Brackets.scan]
      exact ihRest below

end Scans

end Brackets
