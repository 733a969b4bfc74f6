import Mathlib.Data.List.Infix
import Mathlib.Data.List.Nodup
import Mathlib.Order.Lattice
import Mathlib.Order.OrderDual

/-!
Mounts as a tree. A place is a mount with the names from its root on; every mount
but the topmost is attached at a place of another one, and mounts may be stacked on
a place.
-/

namespace MountTrees

section Walks

variable {α β : Type*} {next : α → Option α} {fuel more : ℕ} {a b c : α}

/-- What is met from `a` on, the last of it after at most `fuel` steps. -/
def walk (next : α → Option α) : ℕ → α → List α
  | 0, a => [a]
  | fuel + 1, a => a :: ((next a).map (walk next fuel)).getD []

inductive Ends (next : α → Option α) : ℕ → α → Prop
  | stop {fuel : ℕ} {a : α} (last : next a = none) : Ends next fuel a
  | step {fuel : ℕ} {a b : α} (goes : next a = some b) (ends : Ends next fuel b) : Ends next (fuel + 1) a

theorem walk_stop (last : next a = none) : walk next fuel a = [a] := by
  cases fuel with
  | zero => rfl
  | succ fuel => simp [walk, last]

theorem Ends.walk_eq (ends : Ends next fuel a) (enough : fuel ≤ more) :
    walk next more a = walk next fuel a := by
  induction ends generalizing more with
  | stop last => rw [walk_stop last, walk_stop last]
  | step goes _ ih =>
      cases more with
      | zero => omega
      | succ more =>
          simp only [walk, goes, Option.map_some, Option.getD_some]
          rw [ih (by omega)]

theorem Ends.walk_step (ends : Ends next fuel a) (goes : next a = some b) :
    walk next fuel a = a :: walk next fuel b := by
  cases ends with
  | stop last =>
      rw [last] at goes
      cases goes
  | @step fuel _ c other rest =>
      rw [goes] at other
      cases other
      rw [rest.walk_eq (Nat.le_succ fuel)]
      simp [walk, goes]

theorem countP_lt [DecidableEq α] {p q : α → Bool} {l : List α} (narrower : ∀ x, p x = true → q x = true)
    (member : a ∈ l) (inside : q a = true) (outside : p a = false) : l.countP p < l.countP q := by
  have split := List.perm_cons_erase member
  rw [split.countP_eq, split.countP_eq, List.countP_cons_of_pos inside,
    List.countP_cons_of_neg (by simp [outside])]
  exact Nat.lt_succ_of_le (List.countP_mono_left fun x _ => narrower x)

/-- A walk that only goes up in a rank, from finitely many sources, ends after as many steps. -/
theorem ends_of_rank [LinearOrder β] (rank : α → β) (sources : List α)
    (rises : ∀ a b, next a = some b → rank a < rank b) (finite : ∀ a b, next a = some b → a ∈ sources) :
    ∀ a, Ends next sources.length a := by
  classical
  suffices bounded : ∀ fuel a, sources.countP (fun x => rank a ≤ rank x) ≤ fuel → Ends next fuel a from
    fun a => bounded _ a List.countP_le_length
  intro fuel
  induction fuel with
  | zero =>
      intro a empty
      cases goes : next a with
      | none => exact .stop goes
      | some b =>
          have counted : 0 < sources.countP (fun x => rank a ≤ rank x) :=
            List.countP_pos_iff.mpr ⟨a, finite a b goes, decide_eq_true (le_refl _)⟩
          omega
  | succ fuel ih =>
      intro a bound
      cases goes : next a with
      | none => exact .stop goes
      | some b =>
          have above := rises a b goes
          have fewer : sources.countP (fun x => rank b ≤ rank x) < sources.countP (fun x => rank a ≤ rank x) := by
            apply countP_lt _ (finite a b goes)
            · exact decide_eq_true (le_refl _)
            · exact decide_eq_false (not_le_of_gt above)
            · intro x higher
              exact decide_eq_true (above.le.trans (of_decide_eq_true higher))
          exact .step goes (ih b (by omega))

end Walks

/-- A mount and the names from its root on. -/
abbrev Place (ν : Type*) := ℕ × List ν

structure Entry (φ ν : Type*) where
  mount : ℕ
  what : φ
  place : Place ν
deriving DecidableEq

section Relocate

variable {φ ν : Type*} {m : ℕ} {p : Place ν} {e : Entry φ ν}

/-- The entry of `m` at another place, any other as it is. -/
def Entry.relocate (m : ℕ) (p : Place ν) (e : Entry φ ν) : Entry φ ν :=
  if e.mount = m then { e with place := p } else e

@[simp] theorem Entry.relocate_mount (m : ℕ) (p : Place ν) (e : Entry φ ν) :
    (e.relocate m p).mount = e.mount := by
  rw [relocate]
  split <;> rfl

theorem Entry.relocate_self (same : e.mount = m) : (e.relocate m p).place = p := by
  rw [relocate, if_pos same]

theorem Entry.relocate_other (other : e.mount ≠ m) : e.relocate m p = e := by
  rw [relocate, if_neg other]

end Relocate

/-- The attached mounts in the order in which they were made, each once, at places of their own and
none below itself. -/
@[ext] structure Tree (φ ν : Type*) where
  entries : List (Entry φ ν)
  distinct : (entries.map Entry.mount).Nodup
  apart : (entries.map Entry.place).Nodup
  acyclic : ∃ rank : ℕ → ℕ, ∀ e ∈ entries, rank e.place.1 < rank e.mount
deriving DecidableEq

theorem find?_key {α β : Type*} [DecidableEq β] {key : α → β} {l : List α} (unique : (l.map key).Nodup)
    {e : α} {k : β} : l.find? (fun x => key x = k) = some e ↔ e ∈ l ∧ key e = k := by
  constructor
  · intro found
    exact ⟨List.mem_of_find?_eq_some found, by simpa using List.find?_some found⟩
  · rintro ⟨member, same⟩
    cases found : l.find? (fun x => key x = k) with
    | none => simpa [same] using List.find?_eq_none.mp found e member
    | some other =>
        have otherSame : key other = k := by simpa using List.find?_some found
        rw [List.inj_on_of_nodup_map unique (List.mem_of_find?_eq_some found) member
          (otherSame.trans same.symm)]

namespace Tree

variable {φ ν : Type*} [DecidableEq ν] {t t' : Tree φ ν} {m x y : ℕ} {p q start : Place ν}

def mountAt (t : Tree φ ν) (p : Place ν) : Option ℕ :=
  (t.entries.find? (fun e => e.place = p)).map Entry.mount

def mountpoint (t : Tree φ ν) (m : ℕ) : Option (Place ν) :=
  (t.entries.find? (fun e => e.mount = m)).map Entry.place

def what (t : Tree φ ν) (m : ℕ) : Option φ :=
  (t.entries.find? (fun e => e.mount = m)).map Entry.what

/-- The mount on a place, with its root. -/
def covers (t : Tree φ ν) (p : Place ν) : Option (Place ν) :=
  (t.mountAt p).map fun m => (m, [])

/-- The root of the last mount that is stacked on a place. -/
def top (t : Tree φ ν) (p : Place ν) : Place ν :=
  (walk t.covers t.entries.length p).getLastD p

/-- A mount, the mount it is attached in and so on. -/
def ancestors (t : Tree φ ν) (m : ℕ) : List ℕ :=
  walk (fun m => (t.mountpoint m).map Prod.fst) t.entries.length m

theorem mountAt_eq_some : t.mountAt p = some m ↔ ∃ e ∈ t.entries, e.mount = m ∧ e.place = p := by
  simp only [mountAt, Option.map_eq_some_iff, find?_key t.apart]
  grind

theorem mountpoint_eq_some : t.mountpoint m = some p ↔ t.mountAt p = some m := by
  simp only [mountAt_eq_some, mountpoint, Option.map_eq_some_iff, find?_key t.distinct]
  grind

omit [DecidableEq ν] in
theorem what_eq_some {w : φ} : t.what m = some w ↔ ∃ e ∈ t.entries, e.mount = m ∧ e.what = w := by
  simp only [what, Option.map_eq_some_iff, find?_key t.distinct]
  grind

theorem mountAt_inj (one : t.mountAt p = some m) (two : t.mountAt q = some m) : p = q := by
  rw [← mountpoint_eq_some] at one two
  rw [one] at two
  cases two
  rfl

theorem exists_rank (t : Tree φ ν) :
    ∃ rank : ℕ → ℕ, ∀ p m, t.mountAt p = some m → rank p.1 < rank m := by
  obtain ⟨rank, rises⟩ := t.acyclic
  refine ⟨rank, fun p m attached => ?_⟩
  obtain ⟨e, member, rfl, rfl⟩ := mountAt_eq_some.mp attached
  exact rises e member

theorem mountAt_self {path : List ν} : t.mountAt (m, path) ≠ some m := by
  obtain ⟨rank, rises⟩ := t.exists_rank
  intro attached
  exact absurd (rises _ _ attached) (Nat.lt_irrefl _)

theorem covers_ends (t : Tree φ ν) (p : Place ν) : Ends t.covers t.entries.length p := by
  obtain ⟨rank, rises⟩ := t.exists_rank
  rw [show t.entries.length = (t.entries.map Entry.place).length from (List.length_map _).symm]
  apply ends_of_rank (fun p => rank p.1)
  · intro p q crossed
    obtain ⟨m, attached, rfl⟩ := Option.map_eq_some_iff.mp crossed
    exact rises p m attached
  · intro p q crossed
    obtain ⟨m, attached, rfl⟩ := Option.map_eq_some_iff.mp crossed
    obtain ⟨e, member, rfl, rfl⟩ := mountAt_eq_some.mp attached
    exact List.mem_map_of_mem member

theorem ancestors_end (t : Tree φ ν) (m : ℕ) :
    Ends (fun m => (t.mountpoint m).map Prod.fst) t.entries.length m := by
  obtain ⟨rank, rises⟩ := t.exists_rank
  rw [show t.entries.length = (t.entries.map Entry.mount).length from (List.length_map _).symm]
  apply ends_of_rank (fun m => OrderDual.toDual (rank m))
  · intro m x up
    obtain ⟨p, attached, rfl⟩ := Option.map_eq_some_iff.mp up
    exact rises p m (mountpoint_eq_some.mp attached)
  · intro m x up
    obtain ⟨p, attached, rfl⟩ := Option.map_eq_some_iff.mp up
    obtain ⟨e, member, rfl, rfl⟩ := mountAt_eq_some.mp (mountpoint_eq_some.mp attached)
    exact List.mem_map_of_mem member

theorem top_of_bare (bare : t.mountAt p = none) : t.top p = p := by
  rw [top, walk_stop (by rw [covers, bare, Option.map_none])]
  rfl

theorem top_of_covered (covered : t.mountAt p = some m) : t.top p = t.top (m, []) := by
  have crossed : t.covers p = some (m, []) := by rw [covers, covered, Option.map_some]
  rw [top, (t.covers_ends p).walk_step crossed, top, List.getLastD_cons]
  cases t.entries.length with
  | zero => rfl
  | succ fuel => rfl

/-- Over the mounts stacked on a place, from the last one down. -/
theorem stack_induction {motive : Place ν → Prop} (bare : ∀ p, t.mountAt p = none → motive p)
    (covered : ∀ p m, t.mountAt p = some m → motive (m, []) → motive p) (p : Place ν) : motive p := by
  generalize fuelEq : t.entries.length = fuel
  have ends := t.covers_ends p
  rw [fuelEq] at ends
  clear fuelEq
  induction ends with
  | stop last => exact bare _ (Option.map_eq_none_iff.mp last)
  | step goes _ ih =>
      obtain ⟨m, attached, rfl⟩ := Option.map_eq_some_iff.mp goes
      exact covered _ m attached ih

theorem mountAt_top (t : Tree φ ν) (p : Place ν) : t.mountAt (t.top p) = none := by
  induction p using t.stack_induction with
  | bare p bare => rw [top_of_bare bare, bare]
  | covered p m covered ih => rw [top_of_covered covered, ih]

theorem mem_ancestors : x ∈ t.ancestors m ↔ x = m ∨ ∃ p, t.mountpoint m = some p ∧ x ∈ t.ancestors p.1 := by
  cases attached : t.mountpoint m with
  | none =>
      rw [ancestors, walk_stop (by rw [attached, Option.map_none])]
      simp
  | some p =>
      rw [ancestors, (t.ancestors_end m).walk_step (by rw [attached, Option.map_some]), List.mem_cons]
      simp [ancestors]

theorem rank_le_of_ancestor {rank : ℕ → ℕ} (rises : ∀ p m, t.mountAt p = some m → rank p.1 < rank m)
    (above : x ∈ t.ancestors m) : rank x ≤ rank m := by
  have ends := t.ancestors_end m
  generalize t.entries.length = fuel at ends
  induction ends with
  | stop last =>
      rcases mem_ancestors.mp above with rfl | ⟨p, attached, _⟩
      · exact Nat.le_refl _
      · rw [attached] at last
        cases last
  | step goes _ ih =>
      obtain ⟨p, attached, rfl⟩ := Option.map_eq_some_iff.mp goes
      rcases mem_ancestors.mp above with rfl | ⟨q, other, higher⟩
      · exact Nat.le_refl _
      · rw [attached] at other
        cases other
        exact (ih higher).trans (rises p _ (mountpoint_eq_some.mp attached)).le

/-! Attaching, moving and detaching a mount. -/

theorem not_mem_of_free (free : t.mountAt p = none) {e : Entry φ ν} (inside : e ∈ t.entries) :
    e.place ≠ p := by
  intro same
  rw [mountAt_eq_some.mpr ⟨e, inside, rfl, same⟩] at free
  cases free

def attach (t : Tree φ ν) (m : ℕ) (what : φ) (p : Place ν)
    (fresh : ∀ e ∈ t.entries, e.mount ≠ m ∧ e.place.1 ≠ m) (outside : p.1 ≠ m)
    (free : t.mountAt p = none) : Tree φ ν where
  entries := t.entries ++ [⟨m, what, p⟩]
  distinct := by
    rw [List.map_append, List.map_singleton, ← List.concat_eq_append]
    refine List.Nodup.concat ?_ t.distinct
    intro member
    obtain ⟨e, inside, same⟩ := List.mem_map.mp member
    exact (fresh e inside).1 same
  apart := by
    rw [List.map_append, List.map_singleton, ← List.concat_eq_append]
    refine List.Nodup.concat ?_ t.apart
    intro member
    obtain ⟨e, inside, same⟩ := List.mem_map.mp member
    exact not_mem_of_free free inside same
  acyclic := by
    obtain ⟨rank, rises⟩ := t.acyclic
    refine ⟨fun x => if x = m then rank p.1 + 1 else rank x, ?_⟩
    intro e member
    dsimp only
    rcases List.mem_append.mp member with old | new
    · rw [if_neg (fresh e old).2, if_neg (fresh e old).1]
      exact rises e old
    · obtain rfl := List.mem_singleton.mp new
      rw [if_neg outside, if_pos rfl]
      exact Nat.lt_succ_self _

def detach (t : Tree φ ν) (m : ℕ) : Tree φ ν where
  entries := t.entries.filter (fun e => e.mount ≠ m)
  distinct := t.distinct.sublist (List.filter_sublist.map _)
  apart := t.apart.sublist (List.filter_sublist.map _)
  acyclic := by
    obtain ⟨rank, rises⟩ := t.acyclic
    exact ⟨rank, fun e member => rises e (List.mem_filter.mp member).1⟩

theorem relocate_apart (free : t.mountAt p = none) :
    ((t.entries.map (Entry.relocate m p)).map Entry.place).Nodup := by
  rw [List.map_map]
  refine List.Nodup.map_on ?_ (t.apart.of_map _)
  intro e inside e' inside' same
  simp only [Function.comp_apply] at same
  by_cases one : e.mount = m <;> by_cases two : e'.mount = m
  · exact List.inj_on_of_nodup_map t.distinct inside inside' (one.trans two.symm)
  · rw [Entry.relocate_self one, Entry.relocate_other two] at same
    exact absurd same.symm (not_mem_of_free free inside')
  · rw [Entry.relocate_other one, Entry.relocate_self two] at same
    exact absurd same (not_mem_of_free free inside)
  · rw [Entry.relocate_other one, Entry.relocate_other two] at same
    exact List.inj_on_of_nodup_map t.apart inside inside' same

/-- What is below the mount moves up in the rank with it. -/
theorem relocate_acyclic (outside : m ∉ t.ancestors p.1) :
    ∃ rank : ℕ → ℕ, ∀ e ∈ t.entries.map (Entry.relocate m p), rank e.place.1 < rank e.mount := by
  classical
  obtain ⟨rank, rises⟩ := t.acyclic
  refine ⟨fun x => if m ∈ t.ancestors x then rank x + rank p.1 + 1 else rank x, ?_⟩
  intro moved member
  dsimp only
  obtain ⟨e, inside, rfl⟩ := List.mem_map.mp member
  by_cases self : e.mount = m
  · rw [Entry.relocate_self self, if_neg outside, Entry.relocate_mount, self,
      if_pos (mem_ancestors.mpr (.inl rfl))]
    omega
  · have attached : t.mountpoint e.mount = some e.place :=
      mountpoint_eq_some.mpr (mountAt_eq_some.mpr ⟨e, inside, rfl, rfl⟩)
    have below : m ∈ t.ancestors e.mount ↔ m ∈ t.ancestors e.place.1 := by
      rw [mem_ancestors, attached]
      simp [Ne.symm self]
    have lower := rises e inside
    rw [Entry.relocate_other self]
    simp only [below]
    split <;> omega

def move (t : Tree φ ν) (m : ℕ) (p : Place ν) (outside : m ∉ t.ancestors p.1)
    (free : t.mountAt p = none) : Tree φ ν where
  entries := t.entries.map (Entry.relocate m p)
  distinct := by
    rw [List.map_map, show Entry.mount ∘ Entry.relocate m p = (Entry.mount : Entry φ ν → ℕ) from
      funext (Entry.relocate_mount m p)]
    exact t.distinct
  apart := relocate_apart free
  acyclic := relocate_acyclic outside

/-- What attaching or moving `m` to a free place does: no other mount changes its place. -/
structure Puts (t t' : Tree φ ν) (m : ℕ) (p : Place ν) : Prop where
  free : t.mountAt p = none
  mountAt_put : ∀ q, t'.mountAt q = if q = p then some m else if t.mountAt q = some m then none else t.mountAt q

section Attach

variable {what : φ} {fresh : ∀ e ∈ t.entries, e.mount ≠ m ∧ e.place.1 ≠ m} {outside : p.1 ≠ m}
  {free : t.mountAt p = none}

theorem attach_puts : Puts t (t.attach m what p fresh outside free) m p where
  free := free
  mountAt_put q := by
    have notHere : t.mountAt q ≠ some m := by
      intro attached
      obtain ⟨e, inside, same, _⟩ := mountAt_eq_some.mp attached
      exact (fresh e inside).1 same
    rw [if_neg notHere]
    ext x
    rw [mountAt_eq_some]
    simp only [attach, List.mem_append, List.mem_singleton, or_and_right, exists_or, exists_eq_left]
    rw [← mountAt_eq_some]
    split
    · rename_i here
      rw [here, free]
      simp
    · rename_i elsewhere
      simp [Ne.symm elsewhere]

theorem what_attach : (t.attach m what p fresh outside free).what m = some what :=
  what_eq_some.mpr ⟨⟨m, what, p⟩, List.mem_append_right _ (List.mem_singleton.mpr rfl), rfl, rfl⟩

theorem detach_attach : (t.attach m what p fresh outside free).detach m = t := by
  ext1
  have kept : t.entries.filter (fun e => e.mount ≠ m) = t.entries :=
    List.filter_eq_self.mpr fun e inside => by simpa using (fresh e inside).1
  simp only [attach, detach, List.filter_append, kept]
  simp

end Attach

section Move

variable {outside : m ∉ t.ancestors p.1} {free : t.mountAt p = none}

theorem move_puts (attached : t.mountAt q = some m) : Puts t (t.move m p outside free) m p where
  free := free
  mountAt_put place := by
    obtain ⟨self, selfInside, rfl, rfl⟩ := mountAt_eq_some.mp attached
    ext x
    rw [mountAt_eq_some]
    constructor
    · rintro ⟨moved, member, rfl, rfl⟩
      obtain ⟨e, inside, rfl⟩ := List.mem_map.mp member
      by_cases same : e.mount = self.mount
      · rw [Entry.relocate_self same, if_pos rfl, Entry.relocate_mount, same]
      · rw [Entry.relocate_other same, if_neg (not_mem_of_free free inside)]
        rw [mountAt_eq_some.mpr ⟨e, inside, rfl, rfl⟩, if_neg (by simpa using same)]
    · intro found
      split at found
      · rename_i here
        cases found
        exact ⟨_, List.mem_map_of_mem selfInside, Entry.relocate_mount _ _ _,
          (Entry.relocate_self rfl).trans here.symm⟩
      · split at found
        · cases found
        · rename_i other
          obtain ⟨e, inside, rfl, rfl⟩ := mountAt_eq_some.mp found
          have apart : e.mount ≠ self.mount := by
            intro same
            rw [found, same] at other
            exact other rfl
          exact ⟨e, List.mem_map.mpr ⟨e, inside, Entry.relocate_other apart⟩, rfl, rfl⟩

theorem what_move {w : φ} (made : t.what x = some w) : (t.move m p outside free).what x = some w := by
  obtain ⟨e, inside, rfl, rfl⟩ := what_eq_some.mp made
  refine what_eq_some.mpr ⟨_, List.mem_map_of_mem inside, Entry.relocate_mount _ _ _, ?_⟩
  rw [Entry.relocate]
  split <;> rfl

theorem move_move (attached : t.mountAt q = some m) {outside' : m ∉ (t.move m p outside free).ancestors q.1}
    {free' : (t.move m p outside free).mountAt q = none} :
    (t.move m p outside free).move m q outside' free' = t := by
  ext1
  simp only [move, List.map_map]
  refine (List.map_congr_left fun e inside => ?_).trans (List.map_id _)
  by_cases self : e.mount = m
  · have home : e.place = q := mountAt_inj (mountAt_eq_some.mpr ⟨e, inside, self, rfl⟩) attached
    simp only [Function.comp_apply, Entry.relocate, self, if_true, id_eq]
    rw [← self, ← home]
  · rw [Function.comp_apply, Entry.relocate_other self, Entry.relocate_other self, id_eq]

end Move

theorem mountAt_detach (apart : t.mountAt p ≠ some m) : (t.detach m).mountAt p = t.mountAt p := by
  ext x
  rw [mountAt_eq_some, mountAt_eq_some]
  constructor
  · rintro ⟨e, inside, same⟩
    exact ⟨e, (List.mem_filter.mp inside).1, same⟩
  · rintro ⟨e, inside, rfl, rfl⟩
    refine ⟨e, List.mem_filter.mpr ⟨inside, ?_⟩, rfl, rfl⟩
    rw [mountAt_eq_some.mpr ⟨e, inside, rfl, rfl⟩] at apart
    simpa using apart

end Tree

end MountTrees
