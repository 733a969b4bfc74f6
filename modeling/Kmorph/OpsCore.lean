import Kmorph.TakeableCore
import Kmorph.TakeoverCore

/-!
Executable model of the takeover operations, `kmorphd/ops.c`. The results of the
steps that leave the process (files, overlays, resets, children, the dump) are the
answers an operation is given. Each of these steps is logged, in order, with its
result.
-/

namespace Kmorph

abbrev DeviceId := List Char

inductive Overlay
  | adopt (name : String) (cpus : List UInt64) (memory : List Range)
  | deviceAdd (name : String) (id : DeviceId)
  | iommuAdd (name : String) (base : UInt64)
deriving Repr, DecidableEq

inductive Effect
  | fence (ret : Int)
  | setAutoprobe (on : Bool) (ret : Int)
  | applyOverlay (overlay : Overlay) (ret : Int)
  | resetFunction (id : DeviceId) (ret : Int)
  | clearBusMaster (id : DeviceId) (ret : Int)
  | probeDriver (id : DeviceId) (ret : Int)
  | netsnapApply
  | poolClaimWrite (claim : Range) (ret : Int)
  | dumpVmcore (ranges : List Range) (ret : Int)
deriving Repr, DecidableEq

structure OpsEnv where
  dumpPath : Option String
  resetDevices : Bool
  network : Bool
  nextMemory : UInt64
  poolClaimPath : Option String
deriving Repr, DecidableEq

structure SelfInfo where
  name : String
  ownCpus : List UInt64
  reserved : Rangeset
deriving Repr, DecidableEq

/-- `claimFile` is the claim a reader of the claim file finds in it. -/
structure Ops where
  env : OpsEnv
  self : SelfInfo
  host : HostTree
  iommus : List Range
  foreign : List DeviceId
  takeable : Takeable
  adoptable : Rangeset
  preserved : Rangeset
  poolClaim : Range
  devicesTried : Bool
  devicesAdopted : ℕ
  claimFile : Option Range
  log : List Effect
deriving Repr, DecidableEq

def Ops.note (o : Ops) (effects : List Effect) : Ops :=
  { o with log := o.log ++ effects }

def pciIsBridge (d : PciIds) : Bool := d.classCode >>> 16 == 0x06

def listForeign (present : DeviceId → Bool) (devices : List PciIds) : List DeviceId :=
  (devices.filter fun d => !pciIsBridge d && !present d.id).map PciIds.id

/-- `ops_init` once the trees are read; the claim file is found as an earlier boot left it. -/
def opsInit (env : OpsEnv) (self : SelfInfo) (host : HostTree) (iommus : List Range)
    (present : DeviceId → Bool) (claimFile : Option Range) : Ops where
  env := env
  self := self
  host := host
  iommus := iommus
  foreign := listForeign present host.devices
  takeable := .free
  adoptable := rangesetInit
  preserved := rangesetInit
  poolClaim := ⟨0, 0⟩
  devicesTried := false
  devicesAdopted := 0
  claimFile := claimFile
  log := []

def opsFence (ret : Int) (o : Ops) : Int × Ops := (ret, o.note [.fence ret])

/-- What one planning of the adoption meets: the System RAM of this kernel, the granule,
the allocations and, for the claim on the next pool, the result of the write with the
claim a failed write leaves in the file. -/
structure PlanAnswers where
  ownRam : Int × Rangeset
  takeable : TakeableAllocs
  published : Int × UInt64
  blockSize : Int × UInt64
  align : Nat → Bool
  claimWrite : Int
  claimLeft : Option Range
  split : Bool

def PlanAnswers.granule (a : PlanAnswers) : UInt64 := (memoryGranule a.published a.blockSize).2

def largerRange (largest : Option Range) (r : Range) : Option Range :=
  match largest with
  | none => some r
  | some l => if r.size > l.size then some r else some l

def largestRange (ranges : List Range) : Option Range := ranges.foldl largerRange none

def readableClaim (claim : Range) : Option Range := if claim.size = 0 then none else some claim

def poolWant (nextMemory granule : UInt64) : UInt64 :=
  (nextMemory + granule - 1) / granule * granule + granule

def topOf (r : Range) (size : UInt64) : Range := ⟨r.base + r.size - size, size⟩

def keepForPool (a : PlanAnswers) (granule : UInt64) (o : Ops) : Int × Ops :=
  let o := { o with poolClaim := { o.poolClaim with size := 0 } }
  if o.env.nextMemory = 0 ∨ o.env.poolClaimPath = none then (0, o)
  else
    let want := poolWant o.env.nextMemory granule
    match largestRange o.adoptable.r with
    | none => (0, o)
    | some largest =>
        if largest.size < want then (0, o)
        else
          let claim := topOf largest want
          let o := o.note [.poolClaimWrite claim a.claimWrite]
          if a.claimWrite ≠ 0 then
            -- The claim keeps its new base; only its size says that there is none.
            (0, { o with poolClaim := { claim with size := 0 }, claimFile := a.claimLeft })
          else
            let cut := rangesetSubtract a.split o.adoptable claim.base claim.size
            (cut.1, { o with
              poolClaim := claim
              claimFile := readableClaim claim
              adoptable := cut.2 })

def planAdoption (a : PlanAnswers) (o : Ops) : Int × Ops :=
  let o := { o with takeable := .free, adoptable := rangesetInit }
  if a.ownRam.1 ≠ 0 then (a.ownRam.1, o)
  else
    let t := takeableCompute a.takeable o.host a.ownRam.2 o.self.reserved o.self.ownCpus
    let o := { o with takeable := t.2 }
    if t.1 ≠ 0 then (t.1, o)
    else
      let granule := memoryGranule a.published a.blockSize
      if granule.1 ≠ 0 then (granule.1, o)
      else
        let aligned := rangesetAlign a.align o.takeable.memory granule.2 o.adoptable
        let o := { o with adoptable := aligned.2 }
        if aligned.1 ≠ 0 then (aligned.1, o) else keepForPool a granule.2 o

structure OverlayAnswer where
  built : Int
  applied : Int

def applyOverlay (a : OverlayAnswer) (overlay : Overlay) : Int × List Effect :=
  if a.built ≠ 0 then (a.built, []) else (a.applied, [.applyOverlay overlay a.applied])

def applyAdopt (a : OverlayAnswer) (cpus : List UInt64) (memory : Rangeset) (o : Ops) : Int × Ops :=
  if cpus = [] ∧ memory.r = [] then (-EINVAL, o)
  else
    let applied := applyOverlay a (.adopt o.self.name cpus memory.r)
    (applied.1, o.note applied.2)

/-- The loop over the foreign functions, with the first error and the functions adopted so far.
The `i`-th round gets the answer `a i`. -/
def adoptEach (name : String) : (ℕ → OverlayAnswer) → List DeviceId → Int → List DeviceId →
    Int × List DeviceId × List Effect
  | _, [], first, adopted => (first, adopted, [])
  | a, id :: rest, first, adopted =>
      let applied := applyOverlay (a 0) (.deviceAdd name id)
      let after := adoptEach name (fun round => a (round + 1)) rest
        (if applied.1 ≠ 0 ∧ first = 0 then applied.1 else first)
        (if applied.1 = 0 then adopted ++ [id] else adopted)
      (after.1, after.2.1, applied.2 ++ after.2.2)

inductive ResetOutcome
  | reset
  | quiesced
  | live
deriving Repr, DecidableEq

def ResetOutcome.status : ResetOutcome → ℕ
  | .reset => 0
  | .quiesced => 1
  | .live => 2

/-- What becomes of a child: it runs to its end, it is killed after some of its steps, it ends
after some of them with a status that is no outcome, or waiting for it fails and its other steps
come later. -/
inductive ChildFate
  | exits
  | killed (done : ℕ)
  | strays (done excess : ℕ)
  | unwaited (done : ℕ)
deriving Repr, DecidableEq

structure ResetAnswer where
  forked : Bool
  reset : Int
  clear : Int
  fate : ChildFate

def resetDevice (a : ResetAnswer) (id : DeviceId) (reset : Bool) : List Effect × ResetOutcome :=
  let ret := if reset then a.reset else -ENOENT
  let tried := if reset then [.resetFunction id ret] else []
  if ret = 0 then (tried, .reset)
  else (tried ++ [.clearBusMaster id a.clear], if a.clear = 0 then .quiesced else .live)

inductive WaitStatus
  | failed
  | signaled
  | exited (status : ℕ)
deriving Repr, DecidableEq

def childOutcome : WaitStatus → ResetOutcome
  | .exited 0 => .reset
  | .exited 1 => .quiesced
  | _ => .live

structure DeviceRun where
  early : List Effect
  late : List Effect
  outcome : ResetOutcome

def resetOne (pids : Bool) (a : ResetAnswer) (id : DeviceId) (reset : Bool) : DeviceRun :=
  let steps := resetDevice a id reset
  if pids && a.forked then
    match a.fate with
    | .exits => ⟨steps.1, [], childOutcome (.exited steps.2.status)⟩
    | .killed done => ⟨steps.1.take done, [], childOutcome .signaled⟩
    | .strays done excess =>
        ⟨steps.1.take done, [], childOutcome (.exited (ResetOutcome.live.status + 1 + excess))⟩
    -- Counted as live although the child may go on and reset the function.
    | .unwaited done => ⟨steps.1.take done, steps.1.drop done, childOutcome .failed⟩
  else ⟨steps.1, [], steps.2⟩

def resetDevices (pids : Bool) (reset : Bool) : (ℕ → ResetAnswer) → List DeviceId → List DeviceRun
  | _, [] => []
  | a, id :: rest =>
      resetOne pids (a 0) id reset :: resetDevices pids reset (fun round => a (round + 1)) rest

/-- How the steps of processes that run side by side fall into one order: those of the first
list anywhere, those of the second in their own order. -/
structure Schedule where
  merge : List Effect → List Effect → List Effect
  perm : ∀ children parent, (merge children parent).Perm (children ++ parent)
  keeps : ∀ children parent, List.Sublist parent (merge children parent)

def claimIommus (name : String) : (ℕ → OverlayAnswer) → Bool → List Range → List Effect
  | _, _, [] => []
  | a, allQuiet, unit :: rest =>
      if allQuiet then
        (applyOverlay (a 0) (.iommuAdd name unit.base)).2 ++
          claimIommus name (fun round => a (round + 1)) allQuiet rest
      else []

def probeDrivers : (ℕ → Int) → List DeviceId → List Effect
  | _, [] => []
  | a, id :: rest => .probeDriver id (a 0) :: probeDrivers (fun round => a (round + 1)) rest

structure DevicesAnswers where
  adopted : Bool
  autoprobeOff : Int
  autoprobeOn : Int
  adopt : ℕ → OverlayAnswer
  pids : Bool
  resets : ℕ → ResetAnswer
  claims : ℕ → OverlayAnswer
  probes : ℕ → Int
  schedule : Schedule

structure DevicesRun where
  ret : Int
  held : Bool
  adopted : List DeviceId
  outcomes : List ResetOutcome
  effects : List Effect

def opsAdoptDevices (a : DevicesAnswers) (o : Ops) : DevicesRun :=
  if !a.adopted then ⟨-ENOMEM, false, [], [], []⟩
  else
    let hold := o.env.resetDevices || !o.iommus.isEmpty
    let off := if hold then [.setAutoprobe false a.autoprobeOff] else []
    let held := hold && a.autoprobeOff == 0
    let each := adoptEach o.self.name a.adopt o.foreign 0 []
    let adopted := each.2.1
    -- Drivers may already own the functions, so they are neither reset nor probed again.
    if !held then ⟨each.1, false, adopted, [], off ++ each.2.2⟩
    else
      let runs := resetDevices a.pids o.env.resetDevices a.resets adopted
      let outcomes := runs.map DeviceRun.outcome
      let allQuiet := each.1 == 0 && outcomes.count .live == 0
      let after := claimIommus o.self.name a.claims allQuiet o.iommus ++
        .setAutoprobe true a.autoprobeOn :: probeDrivers a.probes adopted
      ⟨each.1, true, adopted, outcomes, off ++ each.2.2 ++
        a.schedule.merge (runs.flatMap DeviceRun.early) [] ++
        a.schedule.merge (runs.flatMap DeviceRun.late) after⟩

structure AdoptAnswers where
  devices : DevicesAnswers
  plan : PlanAnswers
  copy : Nat → Bool
  overlay : OverlayAnswer

def tryDevices (a : DevicesAnswers) (o : Ops) : Ops :=
  if o.devicesTried then o
  else
    let run := opsAdoptDevices a o
    let restored := if o.env.network then [.netsnapApply] else []
    { o with
      devicesTried := true
      devicesAdopted := o.devicesAdopted + run.adopted.length
      log := o.log ++ run.effects ++ restored }

def opsAdopt (a : AdoptAnswers) (o : Ops) : Int × Ops :=
  let planned := planAdoption a.plan (tryDevices a.devices o)
  let o := planned.2
  if planned.1 ≠ 0 then (planned.1, o)
  else if o.env.dumpPath.isSome then
    let copied := rangesetCopy a.copy o.preserved o.adoptable
    let o := { o with preserved := copied.2 }
    -- With a dump to come only the CPUs are adopted; the memory waits for `ops_reap`.
    if copied.1 ≠ 0 then (copied.1, o) else applyAdopt a.overlay o.takeable.cpus rangesetInit o
  else applyAdopt a.overlay o.takeable.cpus o.adoptable o

def opsPreserve (dumped : Int) (o : Ops) : Int × Ops :=
  if o.env.dumpPath.isNone ∨ o.preserved.r = [] then (0, o)
  else (dumped, o.note [.dumpVmcore o.takeable.memory.r dumped])

def opsReap (a : OverlayAnswer) (o : Ops) : Int × Ops :=
  if o.preserved.r = [] then (0, o)
  else
    let applied := applyAdopt a [] o.preserved o
    (applied.1, if applied.1 = 0 then { applied.2 with preserved := rangesetInit } else applied.2)

structure Answers where
  fence : Int
  adopt : AdoptAnswers
  dump : Int
  reap : OverlayAnswer

structure OpsCtx where
  ops : Ops
  answers : ℕ → Answers

def OpsCtx.call (op : Answers → Ops → Int × Ops) (ctx : OpsCtx) : Int × OpsCtx :=
  let result := op (ctx.answers 0) ctx.ops
  (result.1, ⟨result.2, fun calls => ctx.answers (calls + 1)⟩)

def opsTakeoverBase : TakeoverOps OpsCtx where
  fence := OpsCtx.call fun a => opsFence a.fence
  adopt := OpsCtx.call fun a => opsAdopt a.adopt
  preserve := OpsCtx.call fun a => opsPreserve a.dump
  reap := OpsCtx.call fun a => opsReap a.reap
  onState _ _ ctx := ctx

end Kmorph
