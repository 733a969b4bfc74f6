import Kmorph.StandbyCore

/-!
What the calls that change mounts do from any arrangement: a mount that was made or
moved is put back by the call against it, and every other path leads where it led.
-/

namespace Kmorph

open MountTrees

namespace Process

variable {t t' : Tree Filesystem Path} {r cwd : Place Path} {s : Process} {path source dest : Path}
  {names : List Path} {what : Filesystem} {m : ℕ}

theorem resolve_absolute (absolute : path.head? = some '/') :
    s.resolve path = s.mounts.lookup s.root (components path) := by
  rw [resolve, if_pos absolute]

theorem target_absolute (absolute : path.head? = some '/') (named : components path ≠ []) :
    s.target path = s.mounts.lookup s.root (components path) := by
  rw [target, resolve_absolute absolute, Tree.top_of_bare (Tree.mountAt_lookup named)]

theorem isMountpoint_lookup (found : s.mounts.lookup s.root names = (m, [])) (named : names ≠ []) :
    s.isMountpoint (m, []) = true := by
  obtain ⟨p, attached, _⟩ := Tree.attached_lookup found named
  rw [isMountpoint, Tree.mountpoint_eq_some.mpr attached]
  rfl

/-! A mount that is made and taken away again. -/

theorem mountAt_fresh (s : Process) (p : Place Path) : s.mounts.mountAt p ≠ some s.fresh := by
  intro attached
  obtain ⟨e, inside, same, _⟩ := Tree.mountAt_eq_some.mp attached
  exact ne_fresh (mem_used inside).1 same

theorem fresh_bare (s : Process) (l : List Path) : s.mounts.mountAt (s.fresh, l) = none := by
  cases covered : s.mounts.mountAt (s.fresh, l) with
  | none => rfl
  | some m =>
      obtain ⟨e, inside, _, same⟩ := Tree.mountAt_eq_some.mp covered
      exact absurd (congrArg Prod.fst same) (ne_fresh (mem_used inside).2)

theorem fresh_avoided (s : Process) (start : Place Path) (names : List Path) :
    s.mounts.Avoids start names s.fresh :=
  fun _ q _ _ => s.mountAt_fresh q

theorem newMount_puts (s : Process) (what : Filesystem) (path : Path) :
    Tree.Puts s.mounts (s.newMount what path).mounts s.fresh (s.target path) := by
  simp only [newMount]
  exact Tree.attach_puts

theorem target_ne_fresh (s : Process) (path : Path) (l : List Path) : s.target path ≠ (s.fresh, l) := by
  intro same
  exact ne_fresh (s.target_mem_used path) (congrArg Prod.fst same)

theorem lookup_newMount (absolute : path.head? = some '/') (named : components path ≠ []) :
    (s.newMount what path).mounts.lookup s.root (components path) = (s.fresh, []) :=
  (s.newMount_puts what path).lookup_target (target_absolute absolute named).symm named
    (s.fresh_avoided _ _) (s.fresh_bare []) (s.target_ne_fresh path [])

theorem lookup_newMount_other (absolute : path.head? = some '/') (named : components path ≠ [])
    (aside : ¬ components path <+: names) :
    (s.newMount what path).mounts.lookup s.root names = s.mounts.lookup s.root names := by
  refine (s.newMount_puts what path).lookup_other ?_ aside (s.fresh_avoided _ _)
  rw [target_absolute absolute named]
  exact s.mounts.reaches_lookup _ _

theorem newMount_bare (s : Process) (what : Filesystem) (path : Path) (l : List Path) :
    (s.newMount what path).mounts.mountAt (s.fresh, l) = none := by
  rw [(s.newMount_puts what path).mountAt_other (s.target_ne_fresh path l).symm (s.mountAt_fresh _),
    s.fresh_bare]

theorem umount_newMount (absolute : path.head? = some '/') (named : components path ≠ [])
    (outside : cwd.1 ≠ s.fresh) :
    Process.umount { s.newMount what path with cwd := cwd } path = .ok { s with cwd := cwd } := by
  have found : Process.resolve { s.newMount what path with cwd := cwd } path = (s.fresh, []) :=
    (resolve_absolute absolute).trans (lookup_newMount absolute named)
  have there : Process.isMountpoint { s.newMount what path with cwd := cwd } (s.fresh, []) = true :=
    isMountpoint_lookup (lookup_newMount absolute named) named
  have idle : Process.busy { s.newMount what path with cwd := cwd } s.fresh = false := by
    have root : s.root.1 ≠ s.fresh := ne_fresh (by simp [used])
    have old (e : Entry Filesystem Path) (inside : e ∈ s.mounts.entries) : e.place.1 ≠ s.fresh :=
      ne_fresh (mem_used inside).2
    have new : (s.target path).1 ≠ s.fresh := ne_fresh (s.target_mem_used path)
    simp only [busy, newMount, Tree.attach, List.any_append, List.any_cons, List.any_nil, Bool.or_false,
      Bool.or_eq_false_iff, List.any_eq_false, decide_eq_true_eq]
    exact ⟨⟨decide_eq_false root, decide_eq_false outside⟩, old, decide_eq_false new⟩
  simp only [umount, found, there, idle, Bool.not_true, Bool.false_eq_true, if_false]
  simp only [newMount]
  rw [Tree.detach_attach]

/-! A mount that is moved and moved back. -/

/-- Two absolute paths neither of which leads over the other. -/
structure Aside (source dest : Path) : Prop where
  absolute : source.head? = some '/'
  absolute' : dest.head? = some '/'
  named : components source ≠ []
  named' : components dest ≠ []
  apart : ¬ components source <+: components dest
  apart' : ¬ components dest <+: components source

theorem Aside.symm (aside : Aside source dest) : Aside dest source :=
  ⟨aside.absolute', aside.absolute, aside.named', aside.named, aside.apart', aside.apart⟩

theorem moveMount_ok (aside : Aside source dest) (found : t.lookup r (components source) = (m, [])) :
    ∃ outside free, Process.moveMount ⟨t, r, cwd⟩ source dest =
      .ok ⟨t.move m (t.lookup r (components dest)) outside free, r, cwd⟩ := by
  have old : Process.resolve ⟨t, r, cwd⟩ source = (m, []) := (resolve_absolute aside.absolute).trans found
  have place : Process.target ⟨t, r, cwd⟩ dest = t.lookup r (components dest) :=
    target_absolute aside.absolute' aside.named'
  have there : Process.isMountpoint ⟨t, r, cwd⟩ (m, []) = true := isMountpoint_lookup found aside.named
  have outside : m ∉ t.ancestors (t.lookup r (components dest)).1 :=
    Tree.not_ancestor_of_lookup found aside.named aside.apart (t.reaches_lookup _ _)
  refine ⟨outside, Tree.mountAt_lookup aside.named', ?_⟩
  simp only [moveMount, old, there, place, Bool.not_true, Bool.false_eq_true, if_false, outside,
    not_false_eq_true, dif_pos]

structure Moved (t : Tree Filesystem Path) (r : Place Path) (source dest : Path)
    (t' : Tree Filesystem Path) : Prop where
  puts : ∀ m, t.lookup r (components source) = (m, []) →
    Tree.Puts t t' m (t.lookup r (components dest))
  what : ∀ x w, t.what x = some w → t'.what x = some w
  forth : ∀ cwd, Process.moveMount ⟨t, r, cwd⟩ source dest = .ok ⟨t', r, cwd⟩
  back : ∀ cwd, Process.moveMount ⟨t', r, cwd⟩ dest source = .ok ⟨t, r, cwd⟩

theorem exists_moved (aside : Aside source dest) (found : t.lookup r (components source) = (m, [])) :
    ∃ t', Moved t r source dest t' := by
  obtain ⟨home, attached, _⟩ := Tree.attached_lookup found aside.named
  obtain ⟨outside, free, _⟩ := @moveMount_ok t r r source dest m aside found
  have puts : Tree.Puts t (t.move m (t.lookup r (components dest)) outside free) m _ :=
    Tree.move_puts attached
  have reached := t.reaches_lookup r (components dest)
  have apart : t.lookup r (components dest) ≠ (m, []) := by
    intro same
    rw [same, ← found] at reached
    exact aside.apart' (reached.unique (t.reaches_lookup r (components source)) ▸ List.prefix_refl _)
  have away : (t.move m (t.lookup r (components dest)) outside free).lookup r (components dest) = (m, []) :=
    puts.lookup_target rfl aside.named' (Tree.avoids_of_lookup found aside.named aside.apart)
      (by rw [← found]; exact Tree.mountAt_lookup aside.named) apart
  have left : (t.move m (t.lookup r (components dest)) outside free).lookup r (components source) = home :=
    puts.lookup_source found aside.named reached aside.apart' attached
  refine ⟨t.move m _ outside free, ?_, ?_, ?_, ?_⟩
  · intro x same
    rw [found] at same
    cases same
    exact puts
  · intro x w made
    exact Tree.what_move made
  · intro cwd
    exact (moveMount_ok aside found).choose_spec.choose_spec
  · intro cwd
    obtain ⟨outside', free', returned⟩ := @moveMount_ok _ r cwd dest source m aside.symm away
    have restored : ∀ q, q = home → ∀ outside' free',
        (t.move m (t.lookup r (components dest)) outside free).move m q outside' free' = t := by
      rintro q rfl outside' free'
      exact Tree.move_move attached
    rw [returned, restored _ left]

/-! Which calls can succeed. -/

theorem moveMount_cases {p p' : Process} {source dest : Path} (served : p.moveMount source dest = .ok p') :
    ∃ m home, p.resolve source = (m, []) ∧ p.mounts.mountAt home = some m ∧ p'.root = p.root ∧
      Tree.Puts p.mounts p'.mounts m (p.target dest) := by
  simp only [moveMount] at served
  split at served
  · cases served
  · rename_i there
    simp only [Bool.not_eq_true', Bool.not_eq_false] at there
    split at served
    · cases served
      simp only [isMountpoint, Bool.and_eq_true, decide_eq_true_eq, Option.isSome_iff_exists] at there
      obtain ⟨whole, home, attached⟩ := there
      rw [Tree.mountpoint_eq_some] at attached
      refine ⟨_, home, Prod.ext rfl whole, attached, rfl, ?_⟩
      dsimp only
      exact Tree.move_puts attached
    · cases served

theorem umount_cases {p p' : Process} {path : Path} (served : p.umount path = .ok p') :
    ∃ m, p.resolve path = (m, []) ∧ p'.root = p.root ∧ p'.mounts = p.mounts.detach m := by
  simp only [umount] at served
  split at served
  · cases served
  · rename_i there
    split at served
    · cases served
    · cases served
      simp only [isMountpoint, Bool.not_eq_true', Bool.not_eq_false, Bool.and_eq_true, decide_eq_true_eq] at there
      exact ⟨_, Prod.ext rfl there.1, rfl, rfl⟩

end Process

end Kmorph
