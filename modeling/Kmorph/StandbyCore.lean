import Kmorph.FreezeCore
import Kmorph.Lookups

/-!
Executable model of entering the standby image, `kmorphd/standby.c`, over the
mounts that its calls change. A call may fail for any reason the environment has;
one that does not takes the kernel's effect, or is refused where the path does not
name what the call is about.
-/

namespace Kmorph

open MountTrees

def EPERM : Int := 1
def ELOOP : Int := 40

def MS_RDONLY : ℕ := 1
def MS_MOVE : ℕ := 8192

structure Filesystem where
  source : Path
  type : Option Path
  flags : ℕ
  data : Option Path
deriving DecidableEq

/-- The mounts of the process, its root and its working directory. -/
structure Process where
  mounts : Tree Filesystem Path
  root : Place Path
  cwd : Place Path

/-- The names of a path without symbolic links and `..`. -/
def components (path : Path) : List Path :=
  (path.splitOn '/').filter (fun name => name ≠ [] && name ≠ ['.'])

namespace Process

def resolve (s : Process) (path : Path) : Place Path :=
  s.mounts.lookup (if path.head? = some '/' then s.root else s.cwd) (components path)

/-- Where a mount on the path goes: on top of what is mounted there. -/
def target (s : Process) (path : Path) : Place Path := s.mounts.top (s.resolve path)

def used (s : Process) : List ℕ :=
  s.root.1 :: s.cwd.1 :: s.mounts.entries.flatMap (fun e => [e.mount, e.place.1])

def fresh (s : Process) : ℕ := s.used.foldr max 0 + 1

variable {s : Process} {path : Path}

theorem ne_fresh {x : ℕ} (inside : x ∈ s.used) : x ≠ s.fresh := by
  have bounded : ∀ l : List ℕ, ∀ y ∈ l, y ≤ l.foldr max 0 := by
    intro l
    induction l with
    | nil => simp
    | cons z rest ih =>
        intro y member
        rcases List.mem_cons.mp member with rfl | later
        · exact Nat.le_max_left _ _
        · exact (ih y later).trans (Nat.le_max_right _ _)
  have := bounded s.used x inside
  rw [fresh]
  omega

theorem mem_used {e : Entry Filesystem Path} (inside : e ∈ s.mounts.entries) :
    e.mount ∈ s.used ∧ e.place.1 ∈ s.used := by
  simp only [used, List.mem_cons, List.mem_flatMap]
  exact ⟨.inr (.inr ⟨e, inside, by simp⟩), .inr (.inr ⟨e, inside, by simp⟩)⟩

theorem target_mem_used (s : Process) (path : Path) : (s.target path).1 ∈ s.used := by
  have reached := (s.mounts.reaches_lookup (if path.head? = some '/' then s.root else s.cwd)
    (components path)).top.mount
  rcases reached with outer | ⟨e, inside, same⟩
  · rw [target, resolve, outer]
    split <;> simp [used]
  · rw [target, resolve, ← same]
    exact (mem_used inside).1

theorem mountAt_target (s : Process) (path : Path) : s.mounts.mountAt (s.target path) = none :=
  s.mounts.mountAt_top _

def newMount (s : Process) (what : Filesystem) (path : Path) : Process :=
  { s with
    mounts := s.mounts.attach s.fresh what (s.target path)
      (fun _ inside => ⟨ne_fresh (mem_used inside).1, ne_fresh (mem_used inside).2⟩)
      (ne_fresh (s.target_mem_used path)) (s.mountAt_target path) }

/-- Whether a lookup has found the root of a mount that is attached somewhere. -/
def isMountpoint (s : Process) (p : Place Path) : Bool :=
  p.2 = [] && (s.mounts.mountpoint p.1).isSome

def moveMount (s : Process) (source path : Path) : Except Int Process :=
  let old := s.resolve source
  if !s.isMountpoint old then .error (-EINVAL)
  else if outside : old.1 ∉ s.mounts.ancestors (s.target path).1 then
    .ok { s with mounts := s.mounts.move old.1 (s.target path) outside (s.mountAt_target path) }
  else .error (-ELOOP)

def busy (s : Process) (m : ℕ) : Bool :=
  s.root.1 = m || s.cwd.1 = m || s.mounts.entries.any (fun e => e.place.1 = m)

def umount (s : Process) (path : Path) : Except Int Process :=
  let old := s.resolve path
  if !s.isMountpoint old then .error (-EINVAL)
  else if s.busy old.1 then .error (-EBUSY)
  else .ok { s with mounts := s.mounts.detach old.1 }

end Process

inductive Call
  | mount (source target : Path) (type : Option Path) (flags : ℕ) (data : Option Path)
  | umount (target : Path)
  | mkdir (path : Path)
  | copy (source target : Path)
  | chdir (path : Path)
  | chroot (path : Path)
  | write (path text : Path)
  | fork
  | exec (path : Path)
  | idle
deriving DecidableEq

/-- What the kernel makes of a call that nothing else lets fail. -/
def Process.serve (s : Process) : Call → Except Int Process
  | .mount source target type flags data =>
      if flags &&& MS_MOVE ≠ 0 then s.moveMount source target
      else .ok (s.newMount ⟨source, type, flags, data⟩ target)
  | .umount target => s.umount target
  | .chdir path => .ok { s with cwd := s.resolve path }
  | .chroot path => .ok { s with root := s.resolve path }
  | .mkdir _ | .copy _ _ | .write _ _ | .fork | .exec _ | .idle => .ok s

/-- What each call is answered, by the calls before it: 0 where it is left to the kernel, or `-errno`.
The answer to `fork` may also be a pid. -/
structure StandbyEnv where
  answer : List Call → Call → Int
  errno : ∀ past call, call ≠ .fork → answer past call ≤ 0

/-- The calls made so far with what each returned. -/
structure Standby where
  process : Process
  calls : List (Call × Int)

def Standby.past (s : Standby) : List Call := s.calls.map Prod.fst

def StandbyEnv.call (env : StandbyEnv) (call : Call) (s : Standby) : Int × Standby :=
  let answer := env.answer s.past call
  match (if answer = 0 then s.process.serve call else .error answer) with
  | .ok process => (0, ⟨process, s.calls ++ [(call, 0)]⟩)
  | .error ret => (ret, ⟨s.process, s.calls ++ [(call, ret)]⟩)

def STANDBY_IMAGE : Path := "/standby.erofs".toList
def STANDBY_ROOT : Path := "/standby".toList
def STANDBY_LAYERS : Path := "/run/kmorph/root".toList
def STANDBY_INIT : Path := "/sbin/init".toList
def STANDBY_CONFIG : Path := "/run/kmorph/kmorph.conf".toList
def STANDBY_NETWORK : Path := "/run/kmorph/network".toList

/-- `NETSNAP_PATH` -/
def netsnapPath : Path := "/etc/kmorph/network".toList

def pseudoFs : List Path := ["/proc".toList, "/sys".toList, "/dev".toList, "/run".toList]

/-- `snprintf` into a buffer of 64 bytes. -/
def movedPath (fs : Path) : Path := (STANDBY_ROOT ++ fs).take 63

def imagePath : Path := STANDBY_LAYERS ++ "/image".toList

/-- `mount(source, target, NULL, MS_MOVE, NULL)` -/
def Call.move (source target : Path) : Call := .mount source target none MS_MOVE none

def imageFs : Filesystem where
  source := STANDBY_IMAGE
  type := some "erofs".toList
  flags := MS_RDONLY
  data := none

def overlayFs : Filesystem where
  source := "overlay".toList
  type := some "overlay".toList
  flags := 0
  data := some ("lowerdir=".toList ++ STANDBY_LAYERS ++ "/image,upperdir=".toList ++ STANDBY_LAYERS ++
    "/upper,workdir=".toList ++ STANDBY_LAYERS ++ "/work".toList)

def Call.new (fs : Filesystem) (target : Path) : Call :=
  .mount fs.source target fs.type fs.flags fs.data

section Enter

variable (env : StandbyEnv)

def moveBack (moved : ℕ) (s : Standby) : Standby :=
  (pseudoFs.take moved).reverse.foldl (fun s fs => (env.call (.move (movedPath fs) fs) s).2) s

/-- The loop of `move_pseudo_fs` from index `i` on. -/
def moveEach : ℕ → List Path → Standby → Int × Standby
  | _, [], s => (0, s)
  | i, fs :: rest, s =>
      let (ret, s) := env.call (.move fs (movedPath fs)) s
      if ret ≠ 0 then (ret, moveBack env i s) else moveEach (i + 1) rest s

def movePseudoFs (s : Standby) : Int × Standby := moveEach env 0 pseudoFs s

def makeRoot (s : Standby) : Int × Standby :=
  let (ret, s) := env.call (.chdir STANDBY_ROOT) s
  let (ret, s) := if ret = 0 then env.call (.move ['.'] ['/']) s else (ret, s)
  if ret ≠ 0 then (ret, (env.call (.chdir ['/']) s).2)
  else
    let (ret, s) := env.call (.chroot ['.']) s
    if ret = 0 then env.call (.chdir ['/']) s else (ret, s)

def layerDirs : List Path :=
  ["/run/kmorph".toList, STANDBY_LAYERS, imagePath, STANDBY_LAYERS ++ "/upper".toList,
    STANDBY_LAYERS ++ "/work".toList, STANDBY_ROOT]

def makeDirs : List Path → Standby → Int × Standby
  | [], s => (0, s)
  | dir :: rest, s =>
      let (ret, s) := env.call (.mkdir dir) s
      if ret ≠ 0 then (ret, s) else makeDirs rest s

def mountRoot (s : Standby) : Int × Standby :=
  let (ret, s) := makeDirs env layerDirs s
  let (ret, s) := if ret = 0 then env.call (.new imageFs imagePath) s else (ret, s)
  if ret ≠ 0 then (ret, s)
  else
    let (ret, s) := env.call (.new overlayFs STANDBY_ROOT) s
    if ret ≠ 0 then (ret, (env.call (.umount imagePath) s).2) else (ret, s)

def allowNonlocalBind (s : Standby) : Standby :=
  let s := (env.call (.write "/proc/sys/net/ipv4/ip_nonlocal_bind".toList ['1']) s).2
  (env.call (.write "/proc/sys/net/ipv6/ip_nonlocal_bind".toList ['1']) s).2

/-- The calls behind the label `unmount`. -/
def unmount (s : Standby) : Standby :=
  (env.call (.umount imagePath) (env.call (.umount STANDBY_ROOT) s).2).2

/-! `standby_enter`, from its end on. -/

def startInit (s : Standby) : Int × Standby :=
  let s := allowNonlocalBind env s
  let (pid, s) := env.call .fork s
  if pid < 0 then (1, s)
  else if pid = 0 then (0, s)
  else
    let (ret, s) := env.call (.exec STANDBY_INIT) s
    (ret, (env.call .idle s).2)

def switchRoot (s : Standby) : Int × Standby :=
  let (ret, s) := makeRoot env s
  if ret ≠ 0 then (ret, unmount env (moveBack env pseudoFs.length s)) else startInit env s

def moveIn (s : Standby) : Int × Standby :=
  -- A network identity that cannot be copied is left behind.
  let s := (env.call (.copy netsnapPath STANDBY_NETWORK) s).2
  let (ret, s) := movePseudoFs env s
  if ret ≠ 0 then (ret, unmount env s) else switchRoot env s

def fillImage (configPath : Path) (s : Standby) : Int × Standby :=
  let (ret, s) := env.call (.copy configPath STANDBY_CONFIG) s
  if ret ≠ 0 then (ret, unmount env s) else moveIn env s

def standbyEnter (configPath : Path) (s : Standby) : Int × Standby :=
  let (ret, s) := mountRoot env s
  if ret ≠ 0 then (ret, s) else fillImage env configPath s

end Enter

end Kmorph
