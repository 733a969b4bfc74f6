import Kmorph.Mounting
import Kmorph.Stretches

/-!
What `standby_enter` leaves behind, from any arrangement of mounts and whichever of
its calls fail.
-/

namespace Kmorph

open MountTrees

/-! The pseudo filesystems on their way into the image. -/

def standbyName : Path := "standby".toList

theorem components_root : components STANDBY_ROOT = [standbyName] := by decide +kernel

theorem root_named : components STANDBY_ROOT ≠ [] := by simp [components_root]

theorem pseudoFs_path : ∀ fs ∈ pseudoFs, fs.head? = some '/' ∧ (movedPath fs).head? = some '/' ∧
    ∃ name, name ≠ standbyName ∧ components fs = [name] ∧
      components (movedPath fs) = [standbyName, name] := by
  simp only [pseudoFs, List.forall_mem_cons, List.not_mem_nil, false_imp_iff, implies_true, and_true]
  refine ⟨⟨?_, ?_, "proc".toList, ?_, ?_, ?_⟩, ⟨?_, ?_, "sys".toList, ?_, ?_, ?_⟩,
    ⟨?_, ?_, "dev".toList, ?_, ?_, ?_⟩, ?_, ?_, "run".toList, ?_, ?_, ?_⟩ <;> decide +kernel

theorem pseudoFs_nodup : (pseudoFs.map components).Nodup := by decide +kernel

theorem pseudoFs_aside {fs : Path} (pseudo : fs ∈ pseudoFs) : Process.Aside fs (movedPath fs) := by
  obtain ⟨absolute, absolute', name, other, own, moved⟩ := pseudoFs_path fs pseudo
  refine ⟨absolute, absolute', ?_, ?_, ?_, ?_⟩
  · simp [own]
  · simp [moved]
  · rw [own, moved, List.cons_prefix_cons]
    exact fun both => other both.1
  · rw [own, moved]
    intro isPrefix
    have := isPrefix.length_le
    simp at this

/-- The mounts while the filesystems of `rest` are still where they were in `origin` and those of
`done` are in the image. -/
structure Staged (origin : Tree Filesystem Path) (r : Place Path) (image : ℕ) (done rest : List Path)
    (t : Tree Filesystem Path) : Prop where
  root : t.lookup r (components STANDBY_ROOT) = (image, [])
  what : t.what image = some overlayFs
  ahead : ∀ fs ∈ rest, t.lookup r (components fs) = origin.lookup r (components fs) ∧
    t.mountAt (image, components fs) = none
  inside : ∀ fs ∈ done, ∃ p, origin.lookup r (components fs) = (p, []) ∧
    t.mountAt (image, components fs) = some p

section Moves

variable {origin t t' : Tree Filesystem Path} {r : Place Path} {image : ℕ} {done rest : List Path} {fs : Path}

theorem Staged.lookup_moved (staged : Staged origin r image done rest t) (next : fs ∈ rest)
    (pseudo : fs ∈ pseudoFs) : t.lookup r (components (movedPath fs)) = (image, components fs) := by
  obtain ⟨_, _, name, _, own, moved⟩ := pseudoFs_path fs pseudo
  have inImage := staged.root
  have free := (staged.ahead fs next).2
  rw [components_root] at inImage
  rw [own] at free
  rw [moved, own, show [standbyName, name] = [standbyName] ++ [name] from rfl, Tree.lookup_concat, inImage]
  exact Tree.top_of_bare free

/-- A place of the image is on the way of one path only, that behind its own root. -/
theorem Staged.reaches (staged : Staged origin r image done rest t) (name : Path) :
    t.Reaches r [standbyName, name] (image, [name]) := by
  have root := t.reaches_lookup r (components STANDBY_ROOT)
  rw [staged.root, components_root] at root
  exact root.step name

section Step

variable {name name' : Path} {p p' : ℕ} (staged : Staged origin r image done rest t)
  (found : t.lookup r [name] = (p, [])) (puts : Tree.Puts t t' p (image, [name]))
include staged found puts

theorem Staged.lookup_kept (apart : name ≠ name') : t'.lookup r [name'] = t.lookup r [name'] := by
  have avoids : t.Avoids r [name'] p := Tree.avoids_of_lookup found (by simp) (by simpa using apart)
  exact puts.lookup_other (staged.reaches name) (by simp) avoids

/-- A filesystem that was moved before is not the one that is found at this path. -/
theorem Staged.mountAt_kept (other : name ≠ standbyName)
    (attached : t.mountAt (image, [name']) = some p') : t'.mountAt (image, [name']) = some p' := by
  have avoids : t.Avoids r [standbyName, name'] p :=
    Tree.avoids_of_lookup found (by simp) (by simpa using other)
  have different : p' ≠ p := by
    rintro rfl
    exact avoids _ _ (List.prefix_refl _) (staged.reaches name') attached
  have elsewhere : (image, [name']) ≠ (image, [name]) := by
    intro same
    rw [same, puts.free] at attached
    cases attached
  rw [puts.mountAt_other elsewhere (by simpa [attached] using different), attached]

end Step

theorem Staged.step (staged : Staged origin r image done (fs :: rest) t)
    (unique : ((fs :: rest).map components).Nodup) (pseudo : ∀ fs' ∈ done ++ fs :: rest, fs' ∈ pseudoFs)
    {p : ℕ} (mounted : origin.lookup r (components fs) = (p, []))
    (moved : Process.Moved t r fs (movedPath fs) t') : Staged origin r image (done ++ [fs]) rest t' := by
  have here : fs ∈ pseudoFs := pseudo fs (by simp)
  obtain ⟨_, _, name, other, own, _⟩ := pseudoFs_path fs here
  have found : t.lookup r [name] = (p, []) := by
    rw [← own, (staged.ahead fs (by simp)).1, mounted]
  have puts := moved.puts p (by rw [own, found])
  rw [staged.lookup_moved (by simp) here, own] at puts
  refine ⟨?_, moved.what _ _ staged.what, ?_, ?_⟩
  · rw [components_root, staged.lookup_kept found puts other, ← components_root, staged.root]
  · intro fs' later
    obtain ⟨_, _, name', _, own', _⟩ := pseudoFs_path fs' (pseudo fs' (by simp [later]))
    have apart : name ≠ name' := by
      rintro rfl
      rw [List.map_cons, List.nodup_cons] at unique
      exact unique.1 (own.trans own'.symm ▸ List.mem_map_of_mem later)
    obtain ⟨same, free⟩ := staged.ahead fs' (by simp [later])
    rw [own'] at same free ⊢
    constructor
    · rw [staged.lookup_kept found puts apart, same]
    · rw [puts.mountAt_other (by simpa using apart.symm) (by simp [free]), free]
  · intro fs' member
    rcases List.mem_append.mp member with earlier | last
    · obtain ⟨p', mounted', attached⟩ := staged.inside fs' earlier
      obtain ⟨_, _, name', _, own', _⟩ := pseudoFs_path fs' (pseudo fs' (by simp [earlier]))
      refine ⟨p', mounted', ?_⟩
      rw [own'] at attached ⊢
      exact staged.mountAt_kept found puts other attached
    · obtain rfl := List.mem_singleton.mp last
      refine ⟨p, mounted, ?_⟩
      rw [own, puts.mountAt_put, if_pos rfl]

variable {env : StandbyEnv} {s : Standby} {cwd : Place Path} {before : Tree Filesystem Path} {i : ℕ}

theorem moveBack_unforked (unforked : s.Unforked) : (moveBack env i s).Unforked := by
  rw [moveBack]
  generalize (pseudoFs.take i).reverse = back
  induction back generalizing s with
  | nil => exact unforked
  | cons fs back ih =>
      rw [List.foldl_cons]
      exact ih (unforked.after (by simp [Call.move]))

theorem moveBack_succ (split : pseudoFs = done ++ fs :: rest) :
    moveBack env (done.length + 1) s = moveBack env done.length (env.call (.move (movedPath fs) fs) s).2 := by
  have upTo : pseudoFs.take (done.length + 1) = done ++ [fs] := by
    rw [split, List.take_append, List.take_of_length_le (by omega)]
    simp
  have upTo' : pseudoFs.take done.length = done := by
    rw [split, List.take_left]
  rw [moveBack, moveBack, upTo, upTo', List.reverse_append, List.reverse_singleton, List.singleton_append,
    List.foldl_cons]

/-- Moving the first `i` filesystems back leads to the mounts `before`. -/
def Undoes (env : StandbyEnv) (i : ℕ) (r : Place Path) (t before : Tree Filesystem Path) : Prop :=
  ∀ (s : Standby) (cwd : Place Path), s.process = ⟨t, r, cwd⟩ →
    (moveBack env i s).process = ⟨before, r, cwd⟩

theorem Undoes.step (undo : env.UndoSucceeds) (split : pseudoFs = done ++ fs :: rest)
    (moved : Process.Moved t r fs (movedPath fs) t') (undoes : Undoes env done.length r t before) :
    Undoes env (done.length + 1) r t' before := by
  intro s cwd here
  have pseudo : fs ∈ pseudoFs := by simp [split]
  have served : s.process.serve (.move (movedPath fs) fs) = .ok ⟨t, r, cwd⟩ := by
    rw [serve_move, here, moved.back]
  rw [moveBack_succ split]
  exact undoes _ cwd (call_undone undo (by simp [Call.move, Call.undoes, pseudo]) served)

def moveCalls (rest : List Path) : List Call := rest.map fun fs => .move fs (movedPath fs)

/-- From each of its failures on the loop goes all the way back. -/
theorem moveEach_stretch (undo : env.UndoSucceeds) (split : pseudoFs = done ++ rest)
    (mounted : ∀ fs ∈ pseudoFs, ∃ p, origin.lookup r (components fs) = (p, []))
    (staged : Staged origin r image done rest t) (undoes : Undoes env done.length r t before)
    (here : s.At ⟨t, r, cwd⟩) :
    Stretch env s (moveCalls rest)
      (fun s' => ∃ t', s'.At ⟨t', r, cwd⟩ ∧ Staged origin r image pseudoFs [] t' ∧
        Undoes env pseudoFs.length r t' before)
      (Standby.At ⟨before, r, cwd⟩) (moveEach env done.length rest s) := by
  induction rest generalizing done t s with
  | nil =>
      rw [List.append_nil] at split
      refine .passed trivial rfl (by simp [moveCalls, moveEach]) ⟨t, here, ?_, ?_⟩
      · exact split ▸ staged
      · exact split ▸ undoes
  | cons fs rest ih =>
      have pseudo : fs ∈ pseudoFs := by simp [split]
      obtain ⟨p, mountedHere⟩ := mounted fs pseudo
      have found : t.lookup r (components fs) = (p, []) := by rw [(staged.ahead fs (by simp)).1, mountedHere]
      obtain ⟨t', moved⟩ := Process.exists_moved (pseudoFs_aside pseudo) found
      have unique : ((fs :: rest).map components).Nodup := by
        have all := pseudoFs_nodup
        rw [split, List.map_append] at all
        exact all.of_append_right
      have served : s.process.serve (.move fs (movedPath fs)) = .ok ⟨t', r, cwd⟩ := by
        rw [serve_move, here.1, moved.forth]
      have first : Stretch env s [.move fs (movedPath fs)] (Standby.At ⟨t', r, cwd⟩) (Standby.At ⟨t, r, cwd⟩)
          (env.call (.move fs (movedPath fs)) s) :=
        here.1 ▸ stretch_call_at (by simp [Call.move, networkCall]) (by simp [Call.move]) served here.2
      refine first.andThen (moveEach env (done.length + 1) rest) (moveBack env done.length) ?_ ?_
      · rintro s' ⟨back, unforked'⟩
        exact ⟨undoes s' cwd back, moveBack_unforked unforked'⟩
      · intro s' _ there
        have staged' := staged.step unique (fun fs' member => split ▸ member) mountedHere moved
        have undoes' := undoes.step undo split moved
        rw [show done.length + 1 = (done ++ [fs]).length by simp] at undoes' ⊢
        exact ih (by simp [split]) staged' undoes' there

end Moves

/-! The mounts of the image and of its writable layer. -/

def withImage (origin : Process) : Process := origin.newMount imageFs imagePath

def withOverlay (origin : Process) : Process := (withImage origin).newMount overlayFs STANDBY_ROOT

theorem serve_image (p : Process) : p.serve (.new imageFs imagePath) = .ok (withImage p) := rfl

theorem serve_overlay (p : Process) :
    p.serve (.new overlayFs STANDBY_ROOT) = .ok (p.newMount overlayFs STANDBY_ROOT) := rfl

theorem components_image :
    components imagePath = ["run".toList, "kmorph".toList, "root".toList, "image".toList] := by decide +kernel

theorem image_named : components imagePath ≠ [] := by simp [components_image]

theorem image_absolute : imagePath.head? = some '/' := by decide +kernel

theorem root_absolute : STANDBY_ROOT.head? = some '/' := by decide +kernel

section Root

variable {env : StandbyEnv} {s : Standby} {origin : Process} {cwd : Place Path} {call : Call} {process : Process}

theorem ne_overlay {x : ℕ} (inside : x ∈ origin.used) : x ≠ (withImage origin).fresh := by
  apply Process.ne_fresh
  simp only [withImage, Process.newMount, Process.used, Tree.attach, List.flatMap_append, List.mem_cons,
    List.mem_append] at inside ⊢
  rcases inside with root | cwd | attached
  · exact .inl root
  · exact .inr (.inl cwd)
  · exact .inr (.inr (.inl attached))

theorem root_used (origin : Process) : origin.root.1 ∈ origin.used := by simp [Process.used]

theorem cwd_used (origin : Process) : origin.cwd.1 ∈ origin.used := by simp [Process.used]

theorem makeDirs_stretch (dirs : List Path) (unforked : s.Unforked) :
    Stretch env s (dirs.map .mkdir) (Standby.At s.process) (Standby.At s.process) (makeDirs env dirs s) := by
  induction dirs generalizing s with
  | nil => exact .passed trivial rfl (by simp [makeDirs]) ⟨rfl, unforked⟩
  | cons dir rest ih =>
      have first := @stretch_call_at env s (.mkdir dir) s.process (by simp [networkCall]) (by simp) rfl unforked
      refine first.andThen (makeDirs env rest) id (fun _ holds => holds) ?_
      rintro s' _ ⟨same, unforked'⟩
      exact same ▸ ih unforked'

theorem unmountImage_restores (undo : env.UndoSucceeds) (inside : cwd.1 ∈ origin.used)
    (here : s.process = { withImage origin with cwd := cwd }) :
    (env.call (.umount imagePath) s).2.process = { origin with cwd := cwd } := by
  apply call_undone undo rfl
  rw [here]
  exact Process.umount_newMount image_absolute image_named (Process.ne_fresh inside)

theorem unmount_restores (undo : env.UndoSucceeds) (inside : cwd.1 ∈ origin.used)
    (here : s.process = { withOverlay origin with cwd := cwd }) :
    (unmount env s).process = { origin with cwd := cwd } := by
  apply unmountImage_restores undo inside
  apply call_undone undo rfl
  rw [here]
  exact Process.umount_newMount root_absolute root_named (ne_overlay inside)

theorem unmount_unforked (unforked : s.Unforked) : (unmount env s).Unforked :=
  (unforked.after (by simp)).after (by simp)

def mountCalls : List Call :=
  layerDirs.map .mkdir ++ [.new imageFs imagePath] ++ [.new overlayFs STANDBY_ROOT]

theorem mountRoot_stretch (undo : env.UndoSucceeds) (unforked : s.Unforked) :
    Stretch env s mountCalls (Standby.At (withOverlay s.process)) (Standby.At s.process) (mountRoot env s) := by
  have image : Stretch env s (layerDirs.map .mkdir ++ [.new imageFs imagePath]) (Standby.At (withImage s.process))
      (Standby.At s.process) (if (makeDirs env layerDirs s).1 ≠ 0 then makeDirs env layerDirs s
        else env.call (.new imageFs imagePath) (makeDirs env layerDirs s).2) := by
    refine (makeDirs_stretch layerDirs unforked).andThen (env.call (.new imageFs imagePath)) id
      (fun _ holds => holds) ?_
    rintro s' _ ⟨same, unforked'⟩
    rw [← same]
    exact stretch_call_at (by simp [Call.new, networkCall]) (by simp [Call.new]) (serve_image _) unforked'
  have overlay (s' : Standby) (here : s'.At (withImage s.process)) :
      Stretch env s' [.new overlayFs STANDBY_ROOT] (Standby.At (withOverlay s.process)) (Standby.At s.process)
        (if (env.call (.new overlayFs STANDBY_ROOT) s').1 ≠ 0 then
          ((env.call (.new overlayFs STANDBY_ROOT) s').1,
            (env.call (.umount imagePath) (env.call (.new overlayFs STANDBY_ROOT) s').2).2)
        else env.call (.new overlayFs STANDBY_ROOT) s') := by
    have second : Stretch env s' [.new overlayFs STANDBY_ROOT] (Standby.At (withOverlay s.process))
        (Standby.At (withImage s.process)) (env.call (.new overlayFs STANDBY_ROOT) s') :=
      here.1 ▸ stretch_call_at (by simp [Call.new, networkCall]) (by simp [Call.new])
        (by rw [serve_overlay, here.1]; rfl) here.2
    refine second.undo (fun s' => (env.call (.umount imagePath) s').2) ?_
    rintro s' ⟨back, unforked'⟩
    exact ⟨unmountImage_restores undo (cwd_used s.process) back, unforked'.after (by simp)⟩
  have whole := image.andThen _ id (fun _ holds => holds) fun s' _ here => overlay s' here
  simp only [ne_eq, ite_not] at whole
  simp only [mountRoot, ne_eq, ite_not]
  exact whole

theorem staged_withOverlay (origin : Process) :
    Staged origin.mounts origin.root (withImage origin).fresh [] pseudoFs (withOverlay origin).mounts := by
  refine ⟨Process.lookup_newMount root_absolute root_named, ?_, ?_, by simp⟩
  · simp only [withOverlay, Process.newMount]
    exact Tree.what_attach
  · intro fs pseudo
    obtain ⟨_, _, name, other, own, _⟩ := pseudoFs_path fs pseudo
    refine ⟨?_, Process.newMount_bare _ _ _ _⟩
    have image : ¬ components imagePath <+: components fs := by
      intro isPrefix
      have := isPrefix.length_le
      simp [components_image, own] at this
    have root : ¬ components STANDBY_ROOT <+: components fs := by
      simpa [components_root, own] using other.symm
    exact (Process.lookup_newMount_other root_absolute root_named root).trans
      (Process.lookup_newMount_other image_absolute image_named image)

end Root

/-! The image as the root. -/

section MakeRoot

variable {env : StandbyEnv} {s : Standby} {origin t t' : Tree Filesystem Path} {r cwd : Place Path} {image : ℕ}
  {done : List Path}

theorem resolve_dot (process : Process) : process.resolve ['.'] = process.cwd := rfl

structure Rooted (t : Tree Filesystem Path) (r : Place Path) (image : ℕ) (t' : Tree Filesystem Path) : Prop where
  served : Process.moveMount ⟨t, r, (image, [])⟩ ['.'] ['/'] = .ok ⟨t', r, (image, [])⟩
  puts : Tree.Puts t t' image (t.top r)
  what : ∀ x w, t.what x = some w → t'.what x = some w

theorem Staged.exists_rooted (staged : Staged origin r image done [] t) : ∃ t', Rooted t r image t' := by
  obtain ⟨home, attached, _⟩ := Tree.attached_lookup staged.root root_named
  have outside : image ∉ t.ancestors (t.top r).1 :=
    Tree.not_ancestor_of_lookup staged.root root_named (by simp [components_root]) (Tree.Reaches.start).top
  have there : Process.isMountpoint ⟨t, r, (image, [])⟩ (image, []) = true :=
    Process.isMountpoint_lookup staged.root root_named
  refine ⟨t.move image (t.top r) outside (t.mountAt_top r), ?_, Tree.move_puts attached, ?_⟩
  · have place : Process.target ⟨t, r, (image, [])⟩ ['/'] = t.top r := rfl
    simp only [Process.moveMount, resolve_dot, there, place, Bool.not_true, Bool.false_eq_true, if_false,
      outside, not_false_eq_true, dif_pos]
  · intro x w made
    exact Tree.what_move made

def enterCalls : List Call := [.chdir STANDBY_ROOT, .move ['.'] ['/']]

/-- The working directory of the process is the new root when it leaves the old one. -/
def StandbyEnv.Enters (env : StandbyEnv) (past : List Call) : Prop :=
  env.answer past (.chroot ['.']) = 0 ∧ env.answer (past ++ [.chroot ['.']]) (.chdir ['/']) = 0

/-- Up to the move `make_root` is undone; between the move and the end it is not. -/
inductive RootOutcome (env : StandbyEnv) (s : Standby) (t : Tree Filesystem Path) (r : Place Path) (image : ℕ)
    (t' : Tree Filesystem Path) (out : Int × Standby) : Prop
  | restored (refused : ¬ env.Granted s.past enterCalls) (negative : out.1 < 0) (here : out.2.At ⟨t, r, r⟩)
  | stranded (granted : env.Granted s.past enterCalls) (outside : ¬ env.Enters (s.past ++ enterCalls))
      (negative : out.1 < 0)
      (here : out.2.At ⟨t', r, (image, [])⟩ ∨ out.2.At ⟨t', (image, []), (image, [])⟩)
  | entered (granted : env.Granted s.past enterCalls) (inside : env.Enters (s.past ++ enterCalls))
      (zero : out.1 = 0) (here : out.2.At ⟨t', (image, []), (image, [])⟩)

theorem chroot_cases (past : List Call) (made : s.past = past) (here : s.At ⟨t', r, (image, [])⟩) :
    let second := if (env.call (.chroot ['.']) s).1 = 0 then
        env.call (.chdir ['/']) (env.call (.chroot ['.']) s).2 else env.call (.chroot ['.']) s
    env.Enters past ∧ second.1 = 0 ∧ second.2.At ⟨t', (image, []), (image, [])⟩ ∨
      ¬ env.Enters past ∧ second.1 < 0 ∧
        (second.2.At ⟨t', r, (image, [])⟩ ∨ second.2.At ⟨t', (image, []), (image, [])⟩) := by
  subst made
  have unforked : (env.call (.chroot ['.']) s).2.Unforked := here.2.after (by simp)
  have unforked' : (env.call (.chdir ['/']) (env.call (.chroot ['.']) s).2).2.Unforked :=
    unforked.after (by simp)
  by_cases first : env.answer s.past (.chroot ['.']) = 0
  · have served : s.process.serve (.chroot ['.']) = .ok ⟨t', (image, []), (image, [])⟩ := by
      rw [here.1]
      rfl
    obtain ⟨ret, after⟩ := call_granted first served
    have past := call_past env (.chroot ['.']) s
    simp only [ret, if_true]
    by_cases last : env.answer (s.past ++ [.chroot ['.']]) (.chdir ['/']) = 0
    · have served' : (env.call (.chroot ['.']) s).2.process.serve (.chdir ['/']) =
          .ok ⟨t', (image, []), (image, [])⟩ := by
        rw [after]
        rfl
      obtain ⟨ret', after'⟩ := call_granted (past ▸ last) served'
      exact .inl ⟨⟨first, last⟩, ret', after', unforked'⟩
    · obtain ⟨negative, after'⟩ := @call_refused env _ (.chdir ['/']) (past ▸ last) (by simp)
      exact .inr ⟨fun enters => last enters.2, negative, .inr ⟨after'.trans after, unforked'⟩⟩
  · obtain ⟨negative, after⟩ := @call_refused env s (.chroot ['.']) first (by simp)
    simp only [Int.ne_of_lt negative, if_false]
    exact .inr ⟨fun enters => first enters.1, negative, .inl ⟨after.trans here.1, unforked⟩⟩

/-- Stopped before the root has changed, somewhere in the mounts `t`. -/
def StillOutside (t : Tree Filesystem Path) (r : Place Path) (s : Standby) : Prop :=
  s.past.getLast? ≠ some (.chroot ['.']) ∧ ∃ cwd, s.At ⟨t, r, cwd⟩

theorem enter_stretch (staged : Staged origin r image done [] t) (rooted : Rooted t r image t')
    (here : s.At ⟨t, r, cwd⟩) :
    Stretch env s enterCalls (Standby.At ⟨t', r, (image, [])⟩) (StillOutside t r)
      (if (env.call (.chdir STANDBY_ROOT) s).1 ≠ 0 then env.call (.chdir STANDBY_ROOT) s
        else env.call (.move ['.'] ['/']) (env.call (.chdir STANDBY_ROOT) s).2) := by
  have atImage : s.process.serve (.chdir STANDBY_ROOT) = .ok ⟨t, r, (image, [])⟩ := by
    have found : Process.resolve ⟨t, r, cwd⟩ STANDBY_ROOT = (image, []) :=
      (Process.resolve_absolute root_absolute).trans staged.root
    rw [here.1, Process.serve, found]
  have first : Stretch env s [.chdir STANDBY_ROOT] (Standby.At ⟨t, r, (image, [])⟩) (StillOutside t r)
      (env.call (.chdir STANDBY_ROOT) s) := by
    refine stretch_call (by simp [networkCall]) (by simp) atImage ?_ ?_
    · intro s' made after
      exact ⟨after, here.2.extend (by simp) made⟩
    · intro s' made after
      exact ⟨by simp [made], cwd, after.trans here.1, here.2.extend (by simp) made⟩
  refine first.andThen (env.call (.move ['.'] ['/'])) id (fun _ holds => holds) ?_
  intro s' _ inside
  refine stretch_call (by simp [Call.move, networkCall]) (by simp [Call.move])
    (by rw [serve_move, inside.1, rooted.served]) ?_ ?_
  · intro s'' made after
    exact ⟨after, inside.2.extend (by simp [Call.move]) made⟩
  · intro s'' made after
    exact ⟨by simp [made, Call.move], (image, []), after.trans inside.1,
      inside.2.extend (by simp [Call.move]) made⟩

theorem makeRoot_outcome (undo : env.UndoSucceeds) (staged : Staged origin r image done [] t)
    (rooted : Rooted t r image t') (here : s.At ⟨t, r, cwd⟩) :
    RootOutcome env s t r image t' (makeRoot env s) := by
  have whole := (@enter_stretch env s origin t t' r cwd image done staged rooted here).elim
    (motive := RootOutcome env s t r image t')
    (fun s' => if (env.call (.chroot ['.']) s').1 = 0 then
        env.call (.chdir ['/']) (env.call (.chroot ['.']) s').2 else env.call (.chroot ['.']) s')
    (fun s' => (env.call (.chdir ['/']) s').2) ?_ ?_
  · simp only [ne_eq, ite_not] at whole
    simp only [makeRoot, ne_eq, ite_not]
    exact whole
  · rintro refused ret s' negative ⟨last, cwd', at'⟩
    refine .restored refused negative ⟨?_, at'.2.after (by simp)⟩
    refine call_undone undo (by simpa [Call.undoes] using last) ?_
    rw [at'.1]
    rfl
  · intro granted s' made inside
    rcases chroot_cases _ made inside with ⟨enters, zero, after⟩ | ⟨stays, negative, after⟩
    · exact .entered granted enters zero after
    · exact .stranded granted stays negative after

end MakeRoot

def rootCalls (configPath : Path) : List Call :=
  mountCalls ++ ([.copy configPath STANDBY_CONFIG] ++ ([networkCall] ++ (moveCalls pseudoFs ++ enterCalls)))

/-- The mounts and the root are as they were. -/
def PutBack (origin process : Process) : Prop :=
  process.mounts = origin.mounts ∧ process.root = origin.root

/-- A new overlay is the root, and in it the four filesystems are mounted that the old root had at the
same paths. -/
def InImage (origin process : Process) : Prop :=
  ∃ image, image ∉ origin.used ∧ process.root = (image, []) ∧ process.mounts.what image = some overlayFs ∧
    ∀ fs ∈ pseudoFs, ∃ p, origin.resolve fs = (p, []) ∧
      process.mounts.mountAt (image, components fs) = some p

/-- How a run ends that has made the calls of `past` and has those of `calls` before it. -/
inductive Outcome (env : StandbyEnv) (origin : Process) (past calls : List Call) (out : Int × Standby) : Prop
  | restored (refused : ¬ env.Granted past calls) (negative : out.1 < 0) (unforked : out.2.Unforked)
      (back : PutBack origin out.2.process)
  | stranded (granted : env.Granted past calls) (outside : ¬ env.Enters (past ++ calls))
      (negative : out.1 < 0) (unforked : out.2.Unforked) (changed : ¬ PutBack origin out.2.process)
  | entered (inside : env.Enters (past ++ calls)) (forked : .fork ∈ out.2.past)
      (image : InImage origin out.2.process)

theorem Outcome.after {env : StandbyEnv} {origin : Process} {past done calls : List Call} {out : Int × Standby}
    (granted : env.Granted past done) (outcome : Outcome env origin (past ++ done) calls out) :
    Outcome env origin past (done ++ calls) out := by
  cases outcome with
  | restored refused negative unforked back =>
      exact .restored (fun all => refused (granted_append.mp all).2) negative unforked back
  | stranded granted' outside negative unforked changed =>
      rw [List.append_assoc] at outside
      exact .stranded (granted_append.mpr ⟨granted, granted'⟩) outside negative unforked changed
  | entered inside forked image =>
      rw [List.append_assoc] at inside
      exact .entered inside forked image

/-! What undoing does once the image is on top of the root: its paths no longer lead there. -/

/-- The image is among the mounts on top of the root. -/
def OnTop (r : Place Path) (image : ℕ) (process : Process) : Prop :=
  process.root = r ∧ ∃ q, process.mounts.mountAt q = some image ∧ process.mounts.Reaches r [] q

section OnTop

variable {env : StandbyEnv} {s : Standby} {r : Place Path} {image m i : ℕ} {p p' : Process}
  {source dest path : Path}

theorem OnTop.agrees (onTop : OnTop r image p) (root : p'.root = p.root)
    (same : ∀ q, p.mounts.Reaches r [] q → p'.mounts.mountAt q = p.mounts.mountAt q) : OnTop r image p' := by
  obtain ⟨here, q, attached, reached⟩ := onTop
  refine ⟨root.trans here, q, (same q reached).trans attached, reached.agrees ?_⟩
  intro before q' isPrefix onWay
  obtain rfl := List.prefix_nil.mp isPrefix
  exact same q' onWay

theorem OnTop.changed {origin : Process} (onTop : OnTop r image p) (fresh : image ∉ origin.used) :
    ¬ PutBack origin p := by
  rintro ⟨same, _⟩
  obtain ⟨_, q, attached, _⟩ := onTop
  rw [same] at attached
  obtain ⟨e, inside, rfl, _⟩ := Tree.mountAt_eq_some.mp attached
  exact fresh (Process.mem_used inside).1

theorem OnTop.avoids (onTop : OnTop r image p) (absolute : path.head? = some '/') (named : components path ≠ [])
    (found : p.resolve path = (m, [])) : p.mounts.Avoids r [] m := by
  rw [Process.resolve_absolute absolute, onTop.1] at found
  exact Tree.avoids_of_lookup found named (by simpa using named)

theorem OnTop.moveMount (onTop : OnTop r image p) (aside : Process.Aside source dest)
    (served : p.moveMount source dest = .ok p') : OnTop r image p' := by
  obtain ⟨m, home, found, attached, root, puts⟩ := Process.moveMount_cases served
  have avoids := onTop.avoids aside.absolute aside.named found
  refine onTop.agrees root fun q reached => puts.mountAt_other ?_ (avoids _ q (List.prefix_refl _) reached)
  rintro rfl
  rw [Process.target_absolute aside.absolute' aside.named', onTop.1] at reached
  exact aside.named' ((p.mounts.reaches_lookup r _).unique reached)

theorem OnTop.umount (onTop : OnTop r image p) (absolute : path.head? = some '/') (named : components path ≠ [])
    (served : p.umount path = .ok p') : OnTop r image p' := by
  obtain ⟨m, found, root, mounts⟩ := Process.umount_cases served
  have avoids := onTop.avoids absolute named found
  refine onTop.agrees root fun q reached => ?_
  rw [mounts, Tree.mountAt_detach (avoids _ q (List.prefix_refl _) reached)]

theorem moveBack_holds {P : Process → Prop}
    (keeps : ∀ fs ∈ pseudoFs, ∀ p p', P p → p.moveMount (movedPath fs) fs = .ok p' → P p')
    (holds : P s.process) : P (moveBack env i s).process := by
  have pseudo : ∀ fs ∈ (pseudoFs.take i).reverse, fs ∈ pseudoFs :=
    fun fs member => List.mem_of_mem_take (List.mem_reverse.mp member)
  rw [moveBack]
  generalize (pseudoFs.take i).reverse = back at pseudo
  induction back generalizing s with
  | nil => exact holds
  | cons fs back ih =>
      rw [List.foldl_cons]
      exact ih (call_holds (keeps fs (pseudo fs (by simp))) holds) fun fs' later => pseudo fs' (by simp [later])

theorem unmount_holds {P : Process → Prop}
    (keeps : ∀ path ∈ [STANDBY_ROOT, imagePath], ∀ p p', P p → p.umount path = .ok p' → P p')
    (holds : P s.process) : P (unmount env s).process :=
  call_holds (keeps imagePath (by simp)) (call_holds (keeps STANDBY_ROOT (by simp)) holds)

/-- `move_back` and the calls behind `unmount` once the image is on top of the root. -/
theorem undo_onTop (onTop : OnTop r image s.process) : OnTop r image (unmount env (moveBack env i s)).process := by
  refine unmount_holds ?_ (moveBack_holds ?_ onTop)
  · intro path member p p' onTop served
    simp only [List.mem_cons, List.not_mem_nil, or_false] at member
    rcases member with rfl | rfl
    · exact onTop.umount root_absolute root_named served
    · exact onTop.umount image_absolute image_named served
  · intro fs pseudo p p' onTop served
    exact onTop.moveMount (pseudoFs_aside pseudo).symm served

theorem undo_root (here : s.process.root = r) : (unmount env (moveBack env i s)).process.root = r := by
  refine unmount_holds (P := fun p => p.root = r) ?_ (moveBack_holds (P := fun p => p.root = r) ?_ here)
  · intro path _ p p' root served
    obtain ⟨_, _, same, _⟩ := Process.umount_cases served
    exact same.trans root
  · intro fs _ p p' root served
    obtain ⟨_, _, _, _, same, _⟩ := Process.moveMount_cases served
    exact same.trans root

end OnTop

section Rooted

variable {origin : Process} {t t' : Tree Filesystem Path} {r cwd : Place Path} {image : ℕ}

theorem Rooted.onTop {first : Tree Filesystem Path} {done : List Path} (rooted : Rooted t r image t')
    (staged : Staged first r image done [] t) : OnTop r image ⟨t', r, cwd⟩ := by
  have reached := t.reaches_lookup r (components STANDBY_ROOT)
  rw [staged.root] at reached
  have bare : t.mountAt (image, []) = none := staged.root ▸ Tree.mountAt_lookup root_named
  have apart : t.top r ≠ (image, []) := by
    intro same
    exact root_named (reached.unique (same ▸ Tree.Reaches.start.top))
  have avoids : t.Avoids r [] image := Tree.avoids_of_lookup staged.root root_named (by simpa using root_named)
  -- What was stacked on the root still is, and the image is on top of it.
  have covered : t'.top r = (image, []) :=
    rooted.puts.top_target .start rfl avoids bare apart
  have above : t'.Reaches r [] (image, []) := covered ▸ Tree.Reaches.start.top
  rcases above.crossed with ⟨_, rfl⟩ | crossed
  · exact absurd reached.of_start root_named
  · exact ⟨rfl, crossed⟩

theorem Rooted.inImage (rooted : Rooted t origin.root image t') (fresh : image ∉ origin.used)
    (staged : Staged origin.mounts origin.root image pseudoFs [] t) :
    InImage origin ⟨t', (image, []), cwd⟩ := by
  refine ⟨image, fresh, rfl, rooted.what _ _ staged.what, ?_⟩
  intro fs pseudo
  obtain ⟨p, found, attached⟩ := staged.inside fs pseudo
  refine ⟨p, (Process.resolve_absolute (pseudoFs_path fs pseudo).1).trans found, ?_⟩
  dsimp only
  rw [rooted.puts.mountAt_other ?_ ?_, attached]
  · intro same
    rw [same, rooted.puts.free] at attached
    cases attached
  · rw [attached]
    intro same
    cases same
    exact Tree.mountAt_self attached

end Rooted

theorem configCall_ne {configPath : Path} : Call.copy configPath STANDBY_CONFIG ≠ networkCall := by
  have apart : STANDBY_CONFIG ≠ STANDBY_NETWORK := by decide +kernel
  rw [networkCall, ne_eq, Call.copy.injEq, not_and]
  exact fun _ => apart

section Enter

variable {env : StandbyEnv} {s : Standby} {origin : Process} {t t' : Tree Filesystem Path} {cwd : Place Path}

theorem startInit_forks (env : StandbyEnv) (s : Standby) :
    (startInit env s).2.process = s.process ∧ .fork ∈ (startInit env s).2.past := by
  have bound : (allowNonlocalBind env s).process = s.process := by
    rw [allowNonlocalBind, call_inert env _ rfl, call_inert env _ rfl]
  have forked : (env.call .fork (allowNonlocalBind env s)).2.process = s.process := by
    rw [call_inert env _ rfl, bound]
  have made : .fork ∈ (env.call .fork (allowNonlocalBind env s)).2.past := by simp [call_past]
  simp only [startInit]
  split
  · exact ⟨forked, made⟩
  · split
    · exact ⟨forked, made⟩
    · rw [call_inert env .idle rfl, call_inert env (.exec STANDBY_INIT) rfl]
      refine ⟨forked, ?_⟩
      simp [call_past]

/-- A call was refused and what was done since has led to the label `unmount`. -/
theorem Outcome.unmounted {past calls : List Call} {ret : Int} (undo : env.UndoSucceeds)
    (inside : cwd.1 ∈ origin.used) (refused : ¬ env.Granted past calls) (negative : ret < 0)
    (here : s.At { withOverlay origin with cwd := cwd }) :
    Outcome env origin past calls (ret, unmount env s) := by
  have back := unmount_restores undo inside here.1
  refine .restored refused negative (unmount_unforked here.2) ?_
  exact ⟨by rw [back], by rw [back]⟩

theorem switchRoot_outcome (undo : env.UndoSucceeds)
    (staged : Staged origin.mounts origin.root (withImage origin).fresh pseudoFs [] t)
    (undoes : Undoes env pseudoFs.length origin.root t (withOverlay origin).mounts)
    (here : s.At ⟨t, origin.root, cwd⟩) : Outcome env origin s.past enterCalls (switchRoot env s) := by
  have fresh : (withImage origin).fresh ∉ origin.used := fun used => ne_overlay used rfl
  obtain ⟨t', rooted⟩ := staged.exists_rooted
  simp only [switchRoot]
  cases makeRoot_outcome undo staged rooted here with
  | restored refused negative here =>
      rw [if_pos (by omega)]
      exact .unmounted undo (root_used origin) refused negative
        ⟨undoes _ _ here.1, moveBack_unforked here.2⟩
  | stranded granted outside negative here =>
      rw [if_pos (by omega)]
      rcases here with here | here
      · refine .stranded granted outside negative (unmount_unforked (moveBack_unforked here.2)) ?_
        have onTop := @undo_onTop env _ origin.root _ pseudoFs.length (here.1 ▸ rooted.onTop staged)
        exact onTop.changed fresh
      · refine .stranded granted outside negative (unmount_unforked (moveBack_unforked here.2)) ?_
        have root := @undo_root env _ _ pseudoFs.length (congrArg Process.root here.1)
        rintro ⟨_, same⟩
        rw [root] at same
        exact ne_overlay (root_used origin) (congrArg Prod.fst same).symm
  | entered granted inside zero here =>
      rw [if_neg (by simpa using zero)]
      obtain ⟨same, forked⟩ := startInit_forks env (makeRoot env s).2
      refine .entered inside forked ?_
      rw [same, here.1]
      exact rooted.inImage fresh staged

theorem moveIn_outcome (undo : env.UndoSucceeds)
    (mounted : ∀ fs ∈ pseudoFs, ∃ p, origin.mounts.lookup origin.root (components fs) = (p, []))
    (here : s.At (withOverlay origin)) :
    Outcome env origin s.past ([networkCall] ++ (moveCalls pseudoFs ++ enterCalls)) (moveIn env s) := by
  have copied : (env.call networkCall s).2.At (withOverlay origin) :=
    ⟨(call_inert env networkCall rfl).trans here.1, here.2.after (by simp [networkCall])⟩
  have moves := @moveEach_stretch origin.mounts _ origin.root _ [] pseudoFs env (env.call networkCall s).2
    origin.cwd (withOverlay origin).mounts undo rfl mounted (staged_withOverlay origin) (fun _ _ same => same) copied
  refine Outcome.after ⟨fun other => absurd rfl other, trivial⟩ ?_
  rw [← call_past env networkCall s]
  refine moves.elim (motive := Outcome env origin _ _) (switchRoot env) (unmount env) ?_ ?_
  · intro refused ret s' negative back
    exact .unmounted undo (cwd_used origin) (refused_append refused) negative back
  · rintro granted s' made ⟨t, there, staged, undoes⟩
    exact Outcome.after granted (made ▸ switchRoot_outcome undo staged undoes there)

theorem fillImage_outcome {configPath : Path} (undo : env.UndoSucceeds)
    (mounted : ∀ fs ∈ pseudoFs, ∃ p, origin.mounts.lookup origin.root (components fs) = (p, []))
    (here : s.At (withOverlay origin)) :
    Outcome env origin s.past
      ([.copy configPath STANDBY_CONFIG] ++ ([networkCall] ++ (moveCalls pseudoFs ++ enterCalls)))
      (fillImage env configPath s) := by
  have copies : Stretch env s [.copy configPath STANDBY_CONFIG] (Standby.At (withOverlay origin))
      (Standby.At (withOverlay origin)) (env.call (.copy configPath STANDBY_CONFIG) s) :=
    here.1 ▸ stretch_call_at configCall_ne (by simp) rfl here.2
  refine copies.elim (motive := Outcome env origin _ _) (moveIn env) (unmount env) ?_ ?_
  · intro refused ret s' negative back
    exact .unmounted undo (cwd_used origin) (refused_append refused) negative back
  · intro granted s' made there
    exact Outcome.after granted (made ▸ moveIn_outcome undo mounted there)

theorem standbyEnter_outcome {configPath : Path} (undo : env.UndoSucceeds)
    (mounted : ∀ fs ∈ pseudoFs, ∃ p, origin.mounts.lookup origin.root (components fs) = (p, [])) :
    Outcome env origin [] (rootCalls configPath) (standbyEnter env configPath ⟨origin, []⟩) := by
  have mounts := @mountRoot_stretch env ⟨origin, []⟩ undo (by simp [Standby.Unforked, Standby.past])
  refine mounts.elim (motive := Outcome env origin _ _) (fillImage env configPath) id ?_ ?_
  · intro refused ret s' negative back
    refine .restored (refused_append refused) negative back.2 ?_
    exact ⟨congrArg Process.mounts back.1, congrArg Process.root back.1⟩
  · intro granted s made here
    exact Outcome.after granted (made ▸ fillImage_outcome undo mounted here)

end Enter

/-- A negative result before the fork leaves everything as it was; 0 and 1 are returned in the image. -/
def AllOrNothing (origin : Process) (out : Int × Standby) : Prop :=
  (out.1 < 0 → out.2.Unforked → PutBack origin out.2.process) ∧
    (out.1 = 0 ∨ out.1 = 1 → InImage origin out.2.process)

/-- From any arrangement of mounts with the four filesystems mounted, and as long as what is undone
succeeds: the failures that are not undone are those of `chroot` and of the `chdir` behind it, when
the image is already on top of the root. -/
theorem standbyEnter_allOrNothing_iff (env : StandbyEnv) (configPath : Path) (origin : Process)
    (undo : env.UndoSucceeds)
    (mounted : ∀ fs ∈ pseudoFs, origin.isMountpoint (origin.resolve fs) = true) :
    AllOrNothing origin (standbyEnter env configPath ⟨origin, []⟩) ↔
      (env.Granted [] (rootCalls configPath) → env.Enters (rootCalls configPath)) := by
  have found : ∀ fs ∈ pseudoFs, ∃ p, origin.mounts.lookup origin.root (components fs) = (p, []) := by
    intro fs pseudo
    have there := mounted fs pseudo
    rw [Process.resolve_absolute (pseudoFs_path fs pseudo).1, Process.isMountpoint, Bool.and_eq_true,
      decide_eq_true_eq] at there
    exact ⟨_, Prod.ext rfl there.1⟩
  cases @standbyEnter_outcome env origin configPath undo found with
  | restored refused negative _ back =>
      refine iff_of_true ⟨fun _ _ => back, ?_⟩ (fun granted => absurd granted refused)
      rintro (zero | one) <;> omega
  | stranded granted outside negative unforked changed =>
      refine iff_of_false ?_ (fun enters => outside (enters granted))
      rintro ⟨restores, _⟩
      exact changed (restores negative unforked)
  | entered inside forked image =>
      exact iff_of_true ⟨fun _ unforked => absurd forked unforked, fun _ => image⟩ (fun _ => inside)

def refusing (call : Call) (errno : ℕ) : StandbyEnv where
  answer _ other := if other = call then -errno else 0
  errno _ other _ := by split <;> omega

theorem refusing_undoSucceeds {call : Call} {errno : ℕ} (forward : ∀ past, call.undoes past = false) :
    (refusing call errno).UndoSucceeds := by
  intro past other undoes
  refine if_neg ?_
  rintro rfl
  rw [forward past] at undoes
  cases undoes

def tmpfs (m : ℕ) (place : Place Path) : Entry Filesystem Path :=
  ⟨m, ⟨"tmpfs".toList, some "tmpfs".toList, 0, none⟩, place⟩

/-- The four filesystems on a root that holds nothing else. -/
def bootMounts : Tree Filesystem Path where
  entries := [tmpfs 1 (0, ["proc".toList]), tmpfs 2 (0, ["sys".toList]), tmpfs 3 (0, ["dev".toList]),
    tmpfs 4 (0, ["run".toList])]
  distinct := by decide
  apart := by decide +kernel
  acyclic := ⟨id, by decide⟩

def boot : Process := ⟨bootMounts, (0, []), (0, [])⟩

def busyDev : StandbyEnv := refusing (.move "/dev".toList "/standby/dev".toList) 16

theorem standbyEnter_busyDev :
    (standbyEnter busyDev "/etc/kmorph/kmorph.conf".toList ⟨boot, []⟩).1 = -EBUSY ∧
      AllOrNothing boot (standbyEnter busyDev "/etc/kmorph/kmorph.conf".toList ⟨boot, []⟩) := by
  have forward (past : List Call) : (Call.move "/dev".toList "/standby/dev".toList).undoes past = false := by
    change (decide (MS_MOVE = MS_MOVE) && pseudoFs.contains "/standby/dev".toList) = false
    decide +kernel
  refine ⟨by decide +kernel, ?_⟩
  apply (standbyEnter_allOrNothing_iff _ _ _ (refusing_undoSucceeds forward) (by decide +kernel)).mpr
  intro _
  exact ⟨by decide +kernel, by decide +kernel⟩

/-- The same with something mounted on `/standby` that has the paths of what is undone. -/
def stackedMounts : Tree Filesystem Path where
  entries := bootMounts.entries ++ [tmpfs 5 (0, ["standby".toList]), tmpfs 6 (5, ["proc".toList]),
    tmpfs 7 (5, ["sys".toList]), tmpfs 8 (5, ["dev".toList]), tmpfs 9 (5, ["run".toList]),
    tmpfs 10 (9, ["kmorph".toList, "root".toList, "image".toList])]
  distinct := by decide
  apart := by decide +kernel
  acyclic := ⟨id, by decide⟩

def stacked : Process := ⟨stackedMounts, (0, []), (0, [])⟩

def chrootRefused (origin : Process) : Int × Standby :=
  standbyEnter (refusing (.chroot ['.']) 1) "/etc/kmorph/kmorph.conf".toList ⟨origin, []⟩

/-- With `chroot` refused `/proc` stays in the image, whether the calls that are to put it back fail
or find something else at their paths and succeed. -/
theorem chrootRefused_stranded :
    (refusing (.chroot ['.']) 1).UndoSucceeds ∧
      (∀ origin ∈ [boot, stacked], (∀ fs ∈ pseudoFs, origin.isMountpoint (origin.resolve fs) = true) ∧
        (chrootRefused origin).1 = -EPERM ∧ ¬ AllOrNothing origin (chrootRefused origin)) ∧
      (chrootRefused boot).2.process.mounts.mountpoint 1 = some (6, ["proc".toList]) ∧
      ((chrootRefused stacked).2.calls.drop 17).map Prod.snd = [0, 0, 0, 0, 0, 0] := by
  have refuted (origin : Process) (negative : (chrootRefused origin).1 < 0)
      (unforked : (chrootRefused origin).2.Unforked)
      (differs : (chrootRefused origin).2.process.mounts.mountpoint 1 ≠ origin.mounts.mountpoint 1) :
      ¬ AllOrNothing origin (chrootRefused origin) :=
    fun all => differs (by rw [(all.1 negative unforked).1])
  refine ⟨refusing_undoSucceeds fun _ => rfl, ?_, by decide +kernel, by decide +kernel⟩
  simp only [List.forall_mem_cons, List.not_mem_nil, false_imp_iff, implies_true, and_true]
  exact ⟨⟨by decide +kernel, by decide +kernel,
      refuted boot (by decide +kernel) (by decide +kernel) (by decide +kernel)⟩,
    by decide +kernel, by decide +kernel,
    refuted stacked (by decide +kernel) (by decide +kernel) (by decide +kernel)⟩

end Kmorph
