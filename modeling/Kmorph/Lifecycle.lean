import Kmorph.Dt
import Kmorph.LifecycleCore
import Kmorph.Machine
import Kmorph.Mkfs
import Kmorph.Overlays

/-!
The life of a successor from `kmorph arm` to `kmorph disarm`, whatever the kernel
answers on the way: the calls that an arm makes if it succeeds and if it fails, and
the order in which any commands make theirs.
-/

namespace Kmorph

open Fdt

/-! The flags of `kexec_file_load`. -/

section Flags

def flagsId (flags : UInt64) : ℕ := ((flags &&& MK_KEXEC_FILE_MK_ID_MASK) >>> MK_KEXEC_FILE_MK_ID_SHIFT).toNat

theorem idField (n : ℕ) : n <<< 16 % 2 ^ 64 &&& 0x7fff0000 = (n % 2 ^ 15) <<< 16 := by
  have mask : (0x7fff0000 : ℕ) = (2 ^ 15 - 1) <<< 16 := rfl
  have low : n <<< 16 % 2 ^ 64 = (n % 2 ^ 48) <<< 16 := by
    rw [Nat.shiftLeft_eq, Nat.shiftLeft_eq]
    omega
  have narrow : n % 2 ^ 48 % 2 ^ 15 = n % 2 ^ 15 := by omega
  rw [mask, low, ← Nat.shiftLeft_and_distrib, Nat.and_two_pow_sub_one_eq_mod, narrow]

theorem ofInt_toInt_mod (id : UInt32) : (UInt64.ofInt (toInt id.toNat)).toNat % 2 ^ 15 = id.toNat % 2 ^ 15 := by
  have := id.toNat_lt
  rw [UInt64.ofInt, UInt64.toNat_ofNat', toInt, Int.bmod_def]
  split <;> omega

/-- The flags have room for the low 15 bits of an id. -/
theorem flagsId_kexecFlags (id : UInt32) :
    flagsId (mksysKexecFlags (toInt id.toNat) true) = id.toNat % 2 ^ 15 := by
  have value : (mksysKexecFlags (toInt id.toNat) true).toNat = 0x80000000 ||| (id.toNat % 2 ^ 15) <<< 16 := by
    rw [mksysKexecFlags, if_pos rfl, UInt64.toNat_or, UInt64.toNat_and, UInt64.toNat_shiftLeft]
    change 0x80000000 ||| ((UInt64.ofInt (toInt id.toNat)).toNat <<< 16 % 2 ^ 64 &&& 0x7fff0000) = _
    rw [idField, ofInt_toInt_mod]
  have apart : 0x80000000 &&& 0x7fff0000 = 0 := rfl
  have field : (id.toNat % 2 ^ 15) <<< 16 &&& 0x7fff0000 = (id.toNat % 2 ^ 15) <<< 16 := by
    have small : (id.toNat % 2 ^ 15) <<< 16 % 2 ^ 64 = (id.toNat % 2 ^ 15) <<< 16 := by
      rw [Nat.shiftLeft_eq]
      omega
    have again := idField (id.toNat % 2 ^ 15)
    rwa [small, Nat.mod_mod] at again
  rw [flagsId, UInt64.toNat_shiftRight, UInt64.toNat_and, value]
  change (((0x80000000 ||| (id.toNat % 2 ^ 15) <<< 16) &&& 0x7fff0000) >>> 16 : ℕ) = _
  rw [Nat.and_or_distrib_right, apart, field, Nat.zero_or, Nat.shiftLeft_shiftRight]

end Flags

theorem CallRun.andThen_cases (first next : CallRun) :
    first.1 ≠ 0 ∧ first.andThen next = first ∨ first.1 = 0 ∧ first.andThen next = (next.1, first.2 ++ next.2) := by
  by_cases failed : first.1 = 0
  · exact .inr ⟨failed, if_neg (not_not.mpr failed)⟩
  · exact .inl ⟨failed, if_pos failed⟩

/-! Arming. -/

section Arm

variable {cfg : KmorphConfig} {pool : PoolConfig} {env : ArmEnv} {kernel : List Char} {initrd : List UInt8}
  {ret : Int} {id : UInt32} {calls : List KernelCall}

def armArgs (name : Name) (pool : PoolConfig) (ht : HostTree) : InstanceArgs :=
  ⟨name, pool.cpus, pool.memory, pool.devices, consolePlatformDevices pool, some ht⟩

theorem buildHostTree_errno {m : MachineFiles} (failed : buildHostTree m = .error ret) : ret ≠ 0 := by
  simp only [buildHostTree] at failed
  split at failed
  · cases failed
    decide
  · split at failed
    · rename_i refused
      cases failed
      split
      · assumption
      · decide
    · cases failed

theorem dtBuildInstanceCreate_cases (built : Int) (a : InstanceArgs) :
    (∃ ret, ret ≠ 0 ∧ dtBuildInstanceCreate built a = .error ret) ∨
      ∃ tree, buildInstanceCreate a = .ok tree ∧ dtBuildInstanceCreate built a = .ok tree := by
  rw [dtBuildInstanceCreate]
  split
  · exact .inl ⟨-EINVAL, by decide, rfl⟩
  · cases buildInstanceCreate a with
    | error ret => exact .inl ⟨-EINVAL, by decide, rfl⟩
    | ok tree =>
        by_cases refused : built = 0
        · exact .inr ⟨tree, rfl, by simp [refused]⟩
        · exact .inl ⟨built, refused, by simp [refused]⟩

theorem createInstance_cases (name : Name) (pool : PoolConfig) (m : MachineFiles) (built : Int) :
    (∃ ret, ret ≠ 0 ∧ ∀ applied, createInstance name pool (buildHostTree m) ⟨built, applied⟩ = (ret, [])) ∨
      ∃ ht tree, buildHostTree m = .ok ht ∧ buildInstanceCreate (armArgs name pool ht) = .ok tree ∧
        ∀ applied, createInstance name pool (buildHostTree m) ⟨built, applied⟩ = (applied, [tree]) := by
  cases host : buildHostTree m with
  | error ret => exact .inl ⟨ret, buildHostTree_errno host, fun _ => rfl⟩
  | ok ht =>
      rcases dtBuildInstanceCreate_cases built (armArgs name pool ht) with ⟨ret, failed, refused⟩ | ⟨tree, emitted, done⟩
      · refine .inl ⟨ret, failed, fun _ => ?_⟩
        simp only [createInstance]
        rw [← armArgs, refused]
      · refine .inr ⟨ht, tree, rfl, emitted, fun _ => ?_⟩
        simp only [createInstance]
        rw [← armArgs, done]

def Asked (cfg : KmorphConfig) (pool : PoolConfig) (env : ArmEnv) (tree : Node) : Prop :=
  ∃ ht, buildHostTree (env.files cfg) = .ok ht ∧ buildInstanceCreate (armArgs cfg.name pool ht) = .ok tree

theorem createSuccessor_cases (cfg : KmorphConfig) (pool : PoolConfig) (env : ArmEnv) :
    (∃ ret, ret ≠ 0 ∧ createSuccessor cfg pool env = (ret, [])) ∨
      ∃ ret tree, Asked cfg pool env tree ∧ createSuccessor cfg pool env = (ret, [.applyOverlay tree ret]) := by
  rcases createInstance_cases cfg.name pool (env.files cfg) env.createBuilt with
    ⟨ret, failed, none⟩ | ⟨ht, tree, host, emitted, handed⟩
  · exact .inl ⟨ret, failed, by simp only [createSuccessor, handOver, none, List.map_nil]⟩
  · refine .inr ⟨(mkfsApplyOverlay env.create).1, tree, ⟨ht, host, emitted⟩, ?_⟩
    simp only [createSuccessor, handOver, handed, List.map_cons, List.map_nil]

inductive StartCalls (image : SuccessorImage) (mkId : Int) : Int → List KernelCall → Prop
  | unready {ret : Int} (failed : ret ≠ 0) : StartCalls image mkId ret []
  | load {ret : Int} (failed : ret ≠ 0) : StartCalls image mkId ret [mksysKexecLoad image mkId ret]
  | exec (ret : Int) : StartCalls image mkId ret [mksysKexecLoad image mkId 0, mksysExec mkId ret]

theorem successorCmdline_granted (expected : ¬ (successorCmdline env.cmdlineGranted cfg = none ∧
    (cfg.cmdline ≠ none ∨ cfg.dump ≠ none))) :
    successorCmdline env.cmdlineGranted cfg = successorCmdline true cfg := by
  cases granted : env.cmdlineGranted with
  | true => rfl
  | false =>
      rw [granted] at expected
      have refused : successorCmdline false cfg = none := by simp [successorCmdline]
      simp only [refused, true_and, not_or, not_not] at expected
      simp [successorCmdline, expected]

theorem loadAndExec_calls :
    StartCalls ⟨kernel, initrd, successorCmdline true cfg⟩ (toInt id.toNat) (loadAndExec cfg kernel env id initrd).1
      (loadAndExec cfg kernel env id initrd).2 := by
  rw [loadAndExec]
  split
  · exact .unready (by simp only; omega)
  · simp only
    split
    · exact .unready (by simp only; decide)
    · rename_i expected
      rw [successorCmdline_granted expected]
      rcases CallRun.andThen_cases (env.load.ret, [mksysKexecLoad ⟨kernel, initrd, successorCmdline true cfg⟩
        (toInt id.toNat) env.load.ret]) (env.exec.ret, [mksysExec (toInt id.toNat) env.exec.ret]) with
        ⟨failed, out⟩ | ⟨loaded, out⟩
      · rw [out]
        exact .load failed
      · simp only at loaded
        rw [out, loaded]
        exact .exec _

/-- What `arm_run` calls once the pool is there, up to the call that fails. -/
inductive ArmCalls (cfg : KmorphConfig) (kernel : List Char) (pool : PoolConfig) (env : ArmEnv) :
    Int → List KernelCall → Prop
  | unready {ret : Int} (failed : ret ≠ 0) : ArmCalls cfg kernel pool env ret []
  | create {ret : Int} {tree : Node} (failed : ret ≠ 0) (asked : Asked cfg pool env tree) :
      ArmCalls cfg kernel pool env ret [.applyOverlay tree ret]
  | unread {ret : Int} {tree : Node} (failed : ret ≠ 0) (asked : Asked cfg pool env tree)
      (read : mkfsInstanceId env.instances cfg.name = .error ret) :
      ArmCalls cfg kernel pool env ret [.applyOverlay tree 0, .instanceId cfg.name (.error ret)]
  | start {ret fd : Int} {tree : Node} {id : UInt32} {initrd : List UInt8} {calls : List KernelCall}
      (asked : Asked cfg pool env tree) (opened : 0 ≤ fd) (packed : env.initrd cfg pool.devices = some (fd, initrd))
      (read : mkfsInstanceId env.instances cfg.name = .ok id)
      (started : StartCalls ⟨kernel, initrd, successorCmdline true cfg⟩ (toInt id.toNat) ret calls) :
      ArmCalls cfg kernel pool env ret (.applyOverlay tree 0 :: .instanceId cfg.name (.ok id) :: calls)

theorem armInstance_calls {out : CallRun} (returned : armInstance cfg kernel pool env = some out) :
    ArmCalls cfg kernel pool env out.1 out.2 := by
  simp only [armInstance, Option.bind_eq_bind, Option.bind_eq_some_iff] at returned
  obtain ⟨⟨fd, initrd⟩, packed, returned⟩ := returned
  split at returned
  · cases returned
    exact .unready (by simp only at *; omega)
  · rename_i opened
    cases returned
    rcases createSuccessor_cases cfg pool env with ⟨ret, failed, made⟩ | ⟨ret, tree, asked, made⟩
    · rw [made, CallRun.andThen, if_pos failed]
      exact .unready failed
    · rw [made]
      rcases CallRun.andThen_cases (ret, [.applyOverlay tree ret]) (startSuccessor cfg kernel env initrd) with
        ⟨failed, out⟩ | ⟨applied, out⟩
      · rw [out]
        exact .create failed asked
      · obtain rfl : ret = 0 := applied
        rw [out, startSuccessor]
        cases read : mkfsInstanceId env.instances cfg.name with
        | error errno =>
            have failed := fileReadU32_errno env.instances.errno read
            exact .unread (by simp only; omega) asked read
        | ok id => exact .start asked (not_lt.mp opened) packed read loadAndExec_calls

theorem resolveDevice_errno {name : List Char} (failed : resolveDevice env.sysfs name = .error ret) : ret ≠ 0 := by
  rw [resolveDevice] at failed
  split at failed
  · cases failed
  · simp only [devnameResolve] at failed
    repeat' split at failed
    all_goals cases failed
    · decide
    · decide
    · rename_i unread
      exact neg_ne_zero.mpr (env.realpathErrno unread)
    · decide
    · decide

theorem resolveLoop_errno {granted : ℕ → Bool} {names out : List (List Char)}
    (failed : resolveLoop env.sysfs granted names out = .error ret) : ret ≠ 0 := by
  induction names generalizing out with
  | nil => cases failed
  | cons name names ih =>
      rw [resolveLoop] at failed
      cases resolved : resolveDevice env.sysfs name with
      | error errno =>
          rw [resolved] at failed
          cases failed
          exact resolveDevice_errno resolved
      | ok device =>
          rw [resolved] at failed
          simp only [bind, Except.bind] at failed
          split at failed
          · exact ih failed
          · cases failed
            decide

inductive OfPool : KernelCall → Prop
  | baseline (tree : Node) : OfPool (.writeBaseline tree)
  | addDevices (devices : List DeviceId) (ret : Int) : OfPool (.applyOverlay (buildPoolDeviceAdd devices) ret)

theorem usePool_calls (read : Except Int PoolView) : ∀ call ∈ (usePool pool env read).2, OfPool call := by
  intro call made
  cases read with
  | error ret =>
      rw [usePool] at made
      split at made
      · obtain ⟨tree, -, rfl⟩ := List.mem_map.mp made
        exact .baseline tree
      · exact absurd made List.not_mem_nil
  | ok view =>
      simp only [usePool] at made
      split at made
      · exact absurd made List.not_mem_nil
      · obtain ⟨tree, written, rfl⟩ := List.mem_map.mp made
        rw [armPoolAddDevices_writes written]
        exact .addDevices _ _

theorem ensurePool_calls {out : CallRun} (returned : ensurePool pool env = some out) :
    ∀ call ∈ out.2, OfPool call := by
  rw [ensurePool] at returned
  split at returned
  · cases returned
    exact List.forall_mem_nil _
  · obtain ⟨read, -, rfl⟩ := Option.map_eq_some_iff.mp returned
    exact usePool_calls read

structure PoolOf (cfg : KmorphConfig) (env : ArmEnv) (pool : PoolConfig) : Prop where
  cpus : pool.cpus = cfg.cpus
  memory : pool.memory = cfg.memory
  console : pool.console = cfg.console.isSome
  devices : resolveDevices env.sysfs env.listGranted cfg.devices = .ok pool.devices

/-- What `arm_run` calls: for the pool, and then for the successor. -/
inductive ArmRunCalls (cfg : KmorphConfig) (env : ArmEnv) : Int → List KernelCall → Prop
  | unready {ret : Int} {before : List KernelCall} (failed : ret ≠ 0) (ofPool : ∀ call ∈ before, OfPool call) :
      ArmRunCalls cfg env ret before
  | successor {ret : Int} {kernel : List Char} {pool : PoolConfig} {before calls : List KernelCall}
      (named : cfg.kernel = some kernel) (asks : PoolOf cfg env pool) (ofPool : ∀ call ∈ before, OfPool call)
      (made : ArmCalls cfg kernel pool env ret calls) : ArmRunCalls cfg env ret (before ++ calls)

theorem resolveDevices_errno {names : List (List Char)}
    (failed : resolveDevices env.sysfs env.listGranted names = .error ret) : ret ≠ 0 := by
  rw [resolveDevices] at failed
  split at failed
  · exact resolveLoop_errno failed
  · cases failed
    decide

theorem armRun_calls {out : CallRun} (returned : armRun cfg env = some out) : ArmRunCalls cfg env out.1 out.2 := by
  have invalid : ArmRunCalls cfg env (-EINVAL) [] := .unready (by decide) (List.forall_mem_nil _)
  rw [armRun] at returned
  split at returned
  · cases returned
    exact invalid
  · rename_i kernel named
    split at returned
    · cases returned
      exact invalid
    · rename_i someCpu
      split at returned
      · cases returned
        exact invalid
      · split at returned
        · rename_i errno unresolved
          cases returned
          exact .unready (resolveDevices_errno unresolved) (List.forall_mem_nil _)
        · rename_i devices resolved
          obtain ⟨ensured, made, returned⟩ := Option.bind_eq_some_iff.mp returned
          have ofPool := ensurePool_calls made
          split at returned
          · rename_i failed
            cases returned
            exact .unready failed ofPool
          · rename_i there
            obtain ⟨armed, started, returned⟩ := Option.bind_eq_some_iff.mp returned
            cases returned
            rw [CallRun.andThen, if_neg there]
            exact .successor named ⟨rfl, rfl, rfl, resolved⟩ ofPool (armInstance_calls started)

end Arm

theorem armRun_started {cfg : KmorphConfig} {env : ArmEnv} {calls : List KernelCall}
    (returned : armRun cfg env = some (0, calls)) :
    ∃ kernel pool fd initrd tree id before,
      cfg.kernel = some kernel ∧ PoolOf cfg env pool ∧ 0 ≤ fd ∧ env.initrd cfg pool.devices = some (fd, initrd) ∧
      Asked cfg pool env tree ∧ mkfsInstanceId env.instances cfg.name = .ok id ∧
      (∀ call ∈ before, OfPool call) ∧
      calls = before ++ [.applyOverlay tree 0, .instanceId cfg.name (.ok id),
        mksysKexecLoad ⟨kernel, initrd, successorCmdline true cfg⟩ (toInt id.toNat) 0,
        mksysExec (toInt id.toNat) 0] := by
  have run : ArmRunCalls cfg env 0 calls := armRun_calls returned
  cases run with
  | unready failed => exact absurd rfl failed
  | @successor kernel pool before _ named asks ofPool made =>
      cases made with
      | unready failed => exact absurd rfl failed
      | create failed => exact absurd rfl failed
      | unread failed => exact absurd rfl failed
      | @start fd tree id initrd _ asked opened packed read started =>
          cases started with
          | unready failed => exact absurd rfl failed
          | load failed => exact absurd rfl failed
          | exec =>
              exact ⟨kernel, pool, fd, initrd, tree, id, before, named, asks, opened, packed, asked, read, ofPool, rfl⟩

/-- An arm that succeeds has made sure of the pool and then made four calls: an overlay that asks for
what the config says was applied, the instance of that name has an id, and for that id the image was
loaded and started. The first of these names it by its low 15 bits. -/
theorem armRun_armed (cfg : KmorphConfig) (env : ArmEnv) (calls : List KernelCall)
    (returned : armRun cfg env = some (0, calls)) :
    ∃ kernel pool fd initrd tree id before,
      cfg.kernel = some kernel ∧ PoolOf cfg env pool ∧ 0 ≤ fd ∧ env.initrd cfg pool.devices = some (fd, initrd) ∧
      Asked cfg pool env tree ∧ mkfsInstanceId env.instances cfg.name = .ok id ∧
      (∀ call ∈ before, OfPool call) ∧
      calls = before ++ [.applyOverlay tree 0, .instanceId cfg.name (.ok id),
        mksysKexecLoad ⟨kernel, initrd, successorCmdline true cfg⟩ (toInt id.toNat) 0,
        mksysExec (toInt id.toNat) 0] ∧
      flagsId (mksysKexecFlags (toInt id.toNat) true) = id.toNat % 2 ^ 15 := by
  obtain ⟨kernel, pool, fd, initrd, tree, id, before, named, asks, opened, packed, asked, read, ofPool, made⟩ :=
    armRun_started returned
  exact ⟨kernel, pool, fd, initrd, tree, id, before, named, asks, opened, packed, asked, read, ofPool, made,
    flagsId_kexecFlags id⟩

def sampleApplied : TxAnswers where
  write := .granted
  entries := .ok ["new".toList, "tx_1".toList]
  opened := nofun
  files := {
    read := fun _ => .ok "applied\n".toList
    errno := nofun }

def sampleArm : ArmEnv where
  sysfs := ⟨[], fun _ _ => false, fun _ _ => .error 2, fun _ _ => .error (-ENOENT)⟩
  realpathErrno := by
    intro c name errno failed
    cases failed
    decide
  listGranted := fun _ => true
  rootTree := .ok []
  pool := ⟨(0, 0x8000000), (0, 0x8000000), fun _ => .error (-ENOENT), none, ⟨0, 0⟩, ⟨0, 0⟩⟩
  poolGranted := true
  poolBuilt := 0
  poolOverlay := sampleApplied
  file := fun _ => .ok [1, 2, 3]
  snapshot := fun _ => none
  archiveGranted := fun _ => true
  memfd := 7
  writes := List.replicate 3 (.wrote 4096)
  machine := sampleFiles
  createBuilt := 0
  create := sampleApplied
  instances := sampleShown
  kernelFd := 8
  cmdlineGranted := true
  load := .granted
  exec := .granted

def sampleConfig : KmorphConfig :=
  { configDefaults with
    cpus := [2]
    memory := 0x40000000
    machineCpus := [0, 2]
    kernel := some "/boot/vmlinuz".toList
    cmdline := some "quiet".toList
    dump := some "/var/crash/vmcore".toList
    text := "cpus = 2".toList }

theorem armRun_armed_sample :
    ∃ before tree initrd, armRun sampleConfig sampleArm = some (0, before ++ [.applyOverlay tree 0,
      .instanceId sampleConfig.name (.ok 3),
      mksysKexecLoad ⟨"/boot/vmlinuz".toList, initrd, some "quiet iomem=relaxed".toList⟩ (toInt (3 : UInt32).toNat) 0,
      mksysExec (toInt (3 : UInt32).toNat) 0]) := by
  have runs : (armRun sampleConfig sampleArm).map Prod.fst = some 0 := by decide +kernel
  obtain ⟨⟨ret, calls⟩, returned, rfl⟩ := Option.map_eq_some_iff.mp runs
  obtain ⟨kernel, pool, fd, initrd, tree, id, before, named, -, -, -, -, read, -, rfl, -⟩ :=
    armRun_armed sampleConfig sampleArm calls returned
  cases named
  have number : mkfsInstanceId sampleArm.instances sampleConfig.name = .ok 3 := by decide +kernel
  obtain rfl : id = 3 := Except.ok.inj (read.symm.trans number)
  have cmdline : successorCmdline true sampleConfig = some "quiet iomem=relaxed".toList := by decide +kernel
  rw [cmdline] at returned
  exact ⟨before, tree, initrd, returned⟩

def sampleStuck : ArmEnv := { sampleArm with exec := ⟨-EINVAL, by decide⟩ }

section Disarm

variable {name : Name} {id : UInt32} {env : DisarmEnv} {calls : List KernelCall}

def looks (name : Name) (id : UInt32) (status : Except Int (List Char)) : List KernelCall :=
  [.instanceId name (.ok id), .instanceStatus name status]

/-- The calls of a disarm up to where an instance that has an image does not run. -/
inductive Halted (name : Name) (id : UInt32) : List KernelCall → Prop
  | active : Halted name id (looks name id (.ok "active".toList) ++ [mksysHalt (toInt id.toNat) 0])
  | loaded : Halted name id (looks name id (.ok "loaded".toList))

/-- The calls of a disarm up to where an instance has no image, as far as its status says. -/
inductive Emptied (name : Name) (id : UInt32) : List KernelCall → Prop
  | unloaded {calls : List KernelCall} (halted : Halted name id calls) :
      Emptied name id (calls ++ [mksysKexecUnload (toInt id.toNat) 0])
  | other {status : Except Int (List Char)} (active : status ≠ .ok "active".toList)
      (loaded : status ≠ .ok "loaded".toList) : Emptied name id (looks name id status)

/-- What `disarm_run` calls, up to the call that fails. -/
inductive DisarmCalls (name : Name) : Int → List KernelCall → Prop
  | unknown {ret : Int} (failed : ret ≠ 0) : DisarmCalls name ret [.instanceId name (.error ret)]
  | runs {ret : Int} {id : UInt32} (failed : ret ≠ 0) :
      DisarmCalls name ret (looks name id (.ok "active".toList) ++ [mksysHalt (toInt id.toNat) ret])
  | keeps {ret : Int} {id : UInt32} {calls : List KernelCall} (failed : ret ≠ 0) (halted : Halted name id calls) :
      DisarmCalls name ret (calls ++ [mksysKexecUnload (toInt id.toNat) ret])
  | unbuilt {ret : Int} {id : UInt32} {calls : List KernelCall} (failed : ret ≠ 0) (emptied : Emptied name id calls) :
      DisarmCalls name ret calls
  | asks {ret : Int} {id : UInt32} {calls : List KernelCall} (emptied : Emptied name id calls) :
      DisarmCalls name ret (calls ++ [.applyOverlay (buildInstanceRemove name) ret])

theorem removeInstance_calls (emptied : Emptied name id calls) :
    DisarmCalls name (removeInstance name env).1 (calls ++ (removeInstance name env).2) := by
  rw [removeInstance]
  split
  · rename_i failed
    rw [List.append_nil]
    exact .unbuilt failed emptied
  · exact .asks emptied

theorem unloadInstance_calls {status : List Char} (halted : Halted name id calls)
    (image : status = "active".toList ∨ status = "loaded".toList) :
    DisarmCalls name ((unloadInstance (toInt id.toNat) status env).andThen (removeInstance name env)).1
      (calls ++ ((unloadInstance (toInt id.toNat) status env).andThen (removeInstance name env)).2) := by
  rw [unloadInstance, if_pos image]
  rcases CallRun.andThen_cases (env.unload.ret, [mksysKexecUnload (toInt id.toNat) env.unload.ret])
    (removeInstance name env) with ⟨failed, out⟩ | ⟨unloaded, out⟩
  · rw [out]
    exact .keeps failed halted
  · simp only at unloaded
    rw [out, unloaded, ← List.append_assoc]
    exact removeInstance_calls (.unloaded halted)

theorem haltInstance_other {status : List Char} (other : status ≠ "active".toList) (next : CallRun) :
    (haltInstance (toInt id.toNat) status env).andThen next = next := by
  rw [haltInstance, if_neg other]
  rfl

theorem disarmStatus_ok (status : List Char) : disarmStatus (.ok status) = status := rfl

theorem disarmStatus_ne {read : Except Int (List Char)} {word : List Char} (known : word ≠ "unknown".toList)
    (different : read ≠ .ok word) : disarmStatus read ≠ word := by
  cases read with
  | error ret => exact known.symm
  | ok status => exact fun same => different (congrArg Except.ok same)

theorem takeAway_calls :
    DisarmCalls name (takeAway name id env).1 (.instanceId name (.ok id) :: (takeAway name id env).2) := by
  rw [takeAway]
  generalize mkfsInstanceStatus env.instances name 32 = read
  rw [CallRun.andThen, if_neg (not_not.mpr rfl)]
  by_cases active : read = .ok "active".toList
  · subst active
    rw [disarmStatus_ok, haltInstance, if_pos rfl]
    rcases CallRun.andThen_cases (env.halt.ret, [mksysHalt (toInt id.toNat) env.halt.ret])
      ((unloadInstance (toInt id.toNat) "active".toList env).andThen (removeInstance name env)) with
      ⟨failed, out⟩ | ⟨halted, out⟩
    · rw [out]
      exact .runs failed
    · simp only at halted
      rw [out, halted]
      exact unloadInstance_calls .active (.inl rfl)
  · by_cases loaded : read = .ok "loaded".toList
    · subst loaded
      rw [haltInstance_other (by decide)]
      exact unloadInstance_calls .loaded (.inr rfl)
    · have emptied := @Emptied.other name id read active loaded
      have first := disarmStatus_ne (by decide) active
      have second := disarmStatus_ne (by decide) loaded
      rw [haltInstance_other first, unloadInstance, if_neg (not_or.mpr ⟨first, second⟩), CallRun.andThen,
        if_neg (not_not.mpr rfl)]
      exact removeInstance_calls emptied

theorem disarmRun_calls (name : Name) (env : DisarmEnv) :
    DisarmCalls name (disarmRun name env).1 (disarmRun name env).2 := by
  rw [disarmRun]
  cases read : mkfsInstanceId env.instances name with
  | error ret => exact .unknown (fileReadU32_errno env.instances.errno read).ne
  | ok id => exact takeAway_calls

end Disarm

/-! The order of the calls. -/

section Order

variable {before log : List KernelCall} {call : KernelCall}

/-- A call that may be made now: right before it stands what it waits for. -/
inductive Due (before : List KernelCall) : KernelCall → Prop
  | ofPool {call : KernelCall} (ofPool : OfPool call) : Due before call
  | id (name : Name) (read : Except Int UInt32) : Due before (.instanceId name read)
  | status {name : Name} {id : UInt32} (known : [.instanceId name (.ok id)] <:+ before)
      (read : Except Int (List Char)) : Due before (.instanceStatus name read)
  | create {a : InstanceArgs} {tree : Node} (built : buildInstanceCreate a = .ok tree) (ret : Int) :
      Due before (.applyOverlay tree ret)
  | load {a : InstanceArgs} {tree : Node} {id : UInt32} (built : buildInstanceCreate a = .ok tree)
      (created : [.applyOverlay tree 0, .instanceId a.name (.ok id)] <:+ before) (image : SuccessorImage) (ret : Int) :
      Due before (mksysKexecLoad image (toInt id.toNat) ret)
  | exec {image : SuccessorImage} {mkId : Int} (loaded : [mksysKexecLoad image mkId 0] <:+ before) (ret : Int) :
      Due before (mksysExec mkId ret)
  | halt {name : Name} {id : UInt32} (active : looks name id (.ok "active".toList) <:+ before) (ret : Int) :
      Due before (mksysHalt (toInt id.toNat) ret)
  | unload {name : Name} {id : UInt32} {calls : List KernelCall} (halted : Halted name id calls)
      (last : calls <:+ before) (ret : Int) : Due before (mksysKexecUnload (toInt id.toNat) ret)
  | remove {name : Name} {id : UInt32} {calls : List KernelCall} (emptied : Emptied name id calls)
      (last : calls <:+ before) (ret : Int) : Due before (.applyOverlay (buildInstanceRemove name) ret)

inductive Orderly : List KernelCall → Prop
  | nil : Orderly []
  | snoc {log : List KernelCall} {call : KernelCall} (orderly : Orderly log) (due : Due log call) :
      Orderly (log ++ [call])

theorem Due.mono {more : List KernelCall} (longer : before <:+ more) (due : Due before call) : Due more call := by
  cases due with
  | ofPool ofPool => exact .ofPool ofPool
  | id name read => exact .id name read
  | status known read => exact .status (known.trans longer) read
  | create built ret => exact .create built ret
  | load built created image ret => exact .load built (created.trans longer) image ret
  | exec loaded ret => exact .exec (loaded.trans longer) ret
  | halt active ret => exact .halt (active.trans longer) ret
  | unload halted last ret => exact .unload halted (last.trans longer) ret
  | remove emptied last ret => exact .remove emptied (last.trans longer) ret

theorem Orderly.append (first : Orderly before) (second : Orderly log) : Orderly (before ++ log) := by
  induction second with
  | nil =>
      rw [List.append_nil]
      exact first
  | @snoc log call _ due ih =>
      rw [← List.append_assoc]
      exact ih.snoc (due.mono (List.suffix_append before log))

theorem Orderly.ofPool (ofPool : ∀ call ∈ log, OfPool call) : Orderly log := by
  induction log with
  | nil => exact .nil
  | cons call log ih =>
      obtain ⟨first, others⟩ := List.forall_mem_cons.mp ofPool
      exact (Orderly.nil.snoc (.ofPool first)).append (ih others)

theorem Orderly.looks (name : Name) (id : UInt32) (status : Except Int (List Char)) :
    Orderly (looks name id status) :=
  (Orderly.nil.snoc (.id name (.ok id))).snoc (.status (List.suffix_refl _) status)

theorem Halted.orderly {name : Name} {id : UInt32} (halted : Halted name id log) : Orderly log := by
  cases halted with
  | active => exact (Orderly.looks name id _).snoc (.halt (List.suffix_refl _) 0)
  | loaded => exact .looks name id _

theorem Emptied.orderly {name : Name} {id : UInt32} (emptied : Emptied name id log) : Orderly log := by
  cases emptied with
  | unloaded halted => exact halted.orderly.snoc (.unload halted (List.suffix_refl _) 0)
  | other => exact .looks name id _

theorem DisarmCalls.orderly {name : Name} {ret : Int} (made : DisarmCalls name ret log) : Orderly log := by
  cases made with
  | unknown => exact Orderly.nil.snoc (.id name _)
  | @runs id => exact (Orderly.looks name id _).snoc (.halt (List.suffix_refl _) ret)
  | keeps _ halted => exact halted.orderly.snoc (.unload halted (List.suffix_refl _) ret)
  | unbuilt _ emptied => exact emptied.orderly
  | asks emptied => exact emptied.orderly.snoc (.remove emptied (List.suffix_refl _) ret)

theorem ArmCalls.orderly {cfg : KmorphConfig} {kernel : List Char} {pool : PoolConfig} {env : ArmEnv} {ret : Int}
    (made : ArmCalls cfg kernel pool env ret log) : Orderly log := by
  have created {tree : Node} (asked : Asked cfg pool env tree) (ret : Int) : Orderly [.applyOverlay tree ret] := by
    obtain ⟨ht, -, built⟩ := asked
    exact Orderly.nil.snoc (.create built ret)
  cases made with
  | unready => exact .nil
  | create _ asked => exact created asked ret
  | unread _ asked => exact (created asked 0).snoc (.id cfg.name _)
  | @start _ tree id initrd _ asked _ _ _ started =>
      have known : Orderly [.applyOverlay tree 0, .instanceId cfg.name (.ok id)] := (created asked 0).snoc (.id cfg.name _)
      obtain ⟨ht, -, built⟩ := asked
      have loads (answer : Int) := known.snoc
        (.load built (List.suffix_refl _) ⟨kernel, initrd, successorCmdline true cfg⟩ answer)
      cases started with
      | unready => exact known
      | load => exact loads ret
      | exec => exact (loads 0).snoc (.exec (List.suffix_append _ _) ret)

theorem ArmRunCalls.orderly {cfg : KmorphConfig} {env : ArmEnv} {ret : Int} (made : ArmRunCalls cfg env ret log) :
    Orderly log := by
  cases made with
  | unready _ ofPool => exact .ofPool ofPool
  | successor _ _ ofPool made => exact (Orderly.ofPool ofPool).append made.orderly

theorem runCommands_orderly {commands : List Command} (ran : runCommands commands = some log) : Orderly log := by
  induction commands generalizing log with
  | nil =>
      cases ran
      exact .nil
  | cons command commands ih =>
      obtain ⟨⟨ret, calls⟩, returned, ran⟩ := Option.bind_eq_some_iff.mp ran
      obtain ⟨later, rest, same⟩ := Option.bind_eq_some_iff.mp ran
      cases same
      refine Orderly.append ?_ (ih rest)
      cases command with
      | arm cfg env => exact (armRun_calls returned).orderly
      | disarm cfg env =>
          have made := disarmRun_calls cfg.name env
          rw [show disarmRun cfg.name env = (ret, calls) from Option.some.inj returned] at made
          exact made.orderly

end Order

/-- Whatever commands there are and whatever the kernel answers, each call comes right after what it
waits for: an image is loaded for the instance that was just created and started once it is loaded, a
running instance is halted, a halted one unloaded, and none that is known to have an image is removed.
A disarm returns 0 exactly if it came to the overlay that removes the instance and that was applied. -/
theorem disarmRun_removes (commands : List Command) (log : List KernelCall) (ran : runCommands commands = some log)
    (name : Name) (env : DisarmEnv) :
    Orderly (log ++ (disarmRun name env).2) ∧
      ((disarmRun name env).1 = 0 ↔ ∃ id calls, Emptied name id calls ∧
        (disarmRun name env).2 = calls ++ [.applyOverlay (buildInstanceRemove name) 0]) := by
  have made := disarmRun_calls name env
  refine ⟨(runCommands_orderly ran).append made.orderly, ?_⟩
  generalize (disarmRun name env).1 = ret at made ⊢
  generalize (disarmRun name env).2 = calls at made ⊢
  constructor
  · rintro rfl
    cases made with
    | unknown failed => exact absurd rfl failed
    | runs failed => exact absurd rfl failed
    | keeps failed => exact absurd rfl failed
    | unbuilt failed => exact absurd rfl failed
    | @asks id calls emptied => exact ⟨id, calls, emptied, rfl⟩
  · rintro ⟨id, others, -, same⟩
    have last : calls.getLast? = some (.applyOverlay (buildInstanceRemove name) 0) := by
      rw [same, List.getLast?_concat]
    cases made with
    | unknown => cases last
    | runs => cases last
    | keeps =>
        rw [List.getLast?_concat] at last
        cases last
    | unbuilt _ emptied =>
        cases emptied with
        | unloaded =>
            rw [List.getLast?_concat] at last
            cases last
        | other => cases last
    | asks =>
        rw [List.getLast?_concat] at last
        injection Option.some.inj last

def sampleDisarm : DisarmEnv := ⟨sampleShown, .granted, .granted, 0, sampleApplied⟩

def sampleCommands : List Command :=
  [.arm sampleConfig sampleStuck, .disarm sampleConfig { sampleDisarm with unload := ⟨-EBUSY, by decide⟩ }]

theorem disarmRun_removes_sample :
    ∃ log id calls, runCommands sampleCommands = some log ∧ Emptied sampleConfig.name id calls ∧
      Orderly (log ++ calls ++ [.applyOverlay (buildInstanceRemove sampleConfig.name) 0]) := by
  have runs : (runCommands sampleCommands).isSome = true := by decide +kernel
  obtain ⟨log, ran⟩ := Option.isSome_iff_exists.mp runs
  have zero : (disarmRun sampleConfig.name sampleDisarm).1 = 0 := by decide +kernel
  obtain ⟨orderly, disarmed⟩ := disarmRun_removes sampleCommands log ran sampleConfig.name sampleDisarm
  obtain ⟨id, calls, emptied, same⟩ := disarmed.mp zero
  rw [same, ← List.append_assoc] at orderly
  exact ⟨log, id, calls, ran, emptied, orderly⟩

end Kmorph
