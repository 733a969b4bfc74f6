import Kmorph.BootCore
import Kmorph.Lifecycle
import Kmorph.Plan

/-!
From `kmorph arm` to the takeover: what kmorphd finds in the device tree of an instance
that was armed, and what it then plans to take of the machine.
-/

namespace Kmorph

open Fdt SpanSets

/-! The directories of `/proc/device-tree`: the file with the name of a node is never looked at. -/

section Shown

variable {node : Node} {name : Name}

theorem shownAll_names (children : List (Name × Node)) :
    (shownAll children).map Prod.fst = children.map Prod.fst := by
  induction children with
  | nil => rfl
  | cons child rest ih => simp [shownAll, ih]

theorem lookup_shownAll (children : List (Name × Node)) (wanted : Name) :
    (shownAll children).lookup wanted = (children.lookup wanted).map (Node.shown wanted) := by
  induction children with
  | nil => rfl
  | cons child rest ih =>
      obtain ⟨name, node⟩ := child
      rw [shownAll, List.lookup_cons, List.lookup_cons, ih]
      by_cases same : wanted = name
      · subst same
        simp
      · simp [beq_false_of_ne same]

theorem children_shown (node : Node) (name : Name) : (node.shown name).children = shownAll node.children := by
  cases node
  rw [Node.shown]
  rfl

theorem fileRead_shown {path : List Name} (other : path.getLast? ≠ some "name".toList) (node : Node) (name : Name) :
    fileRead (node.shown name) path = fileRead node path := by
  induction path generalizing node name with
  | nil => rfl
  | cons wanted path ih =>
      cases path with
      | nil =>
          cases node with
          | mk props children =>
              have different : wanted ≠ "name".toList := by simpa using other
              simp only [Node.shown, fileRead, Node.props, List.lookup_append, List.lookup_cons,
                beq_false_of_ne different, List.lookup_nil, Option.or_none]
      | cons next rest =>
          rw [fileRead, fileRead, children_shown, lookup_shownAll]
          cases node.children.lookup wanted with
          | none => rfl
          | some child => exact ih (by simpa using other) child wanted

theorem scandir_shown {filter : Name → Bool} (hidden : filter "name".toList = false) (node : Node) (name : Name) :
    scandir (node.shown name) filter = scandir node filter := by
  cases node with
  | mk props children =>
      simp only [Node.shown, scandir, Node.props, Node.children, shownAll_names, List.map_append, List.filter_append,
        List.map_cons, List.map_nil, List.filter_cons, hidden, List.filter_nil]
      simp

theorem readOptional_shown {path : List Name} (other : path.getLast? ≠ some "name".toList) (node : Node) (name : Name) :
    readOptional (node.shown name) path = readOptional node path := by
  rw [readOptional, fileRead_shown other, readOptional]

theorem readDevices_shown (node : Node) (name : Name) : readDevices (node.shown name) = readDevices node := by
  have each (device : Name) : readPciDevice (node.shown name) device = readPciDevice node device := by
    simp [readPciDevice, readDeviceU32, fileRead_shown, readOptional_shown]
  rw [readDevices, readDevices, children_shown, lookup_shownAll]
  cases node.children.lookup "devices".toList with
  | none => rfl
  | some devices =>
      simp only [Option.map_some]
      rw [scandir_shown (by decide), funext each]

theorem hostTreeRead_shown (node : Node) (name : Name) : hostTreeRead (node.shown name) = hostTreeRead node := by
  have memory (ram : Rangeset) (region : Name) :
      readRegFile (node.shown name) region ram = readRegFile node region ram := by
    rw [readRegFile, readRegFile, fileRead_shown (by simp)]
  have vmcore : readVmcore (node.shown name) = readVmcore node := by
    simp [readVmcore, readCpuNotes, readVmcoreinfo, readPageOffset, readOptional_shown]
  rw [hostTreeRead, hostTreeRead, fileRead_shown (by decide), scandir_shown (by decide), readDevices_shown, vmcore]
  simp only [memory]

end Shown

section Self

variable {root : Node} {reserved : Rangeset}

/-- The regions that are published beside the host tree. -/
def reservedRegions (root : Node) : List Range :=
  match readOptional root ["chosen".toList, "multikernel,reserved-memory".toList] with
  | .ok (some cells) => (fdtutilCellsToRangelist cells).toOption.getD []
  | _ => []

theorem readReserved_regions (read : readReserved root = .ok reserved) :
    addresses reserved.r = addresses (reservedRegions root) := by
  rw [readReserved] at read
  rw [reservedRegions]
  cases file : readOptional root ["chosen".toList, "multikernel,reserved-memory".toList] with
  | error ret =>
      rw [file] at read
      cases read
  | ok cells =>
      rw [file] at read
      cases cells with
      | none =>
          cases read
          rfl
      | some cells =>
          simp only [bind, Except.bind] at read
          cases decoded : fdtutilCellsToRangelist cells with
          | error ret =>
              rw [decoded] at read
              cases read
          | ok ranges =>
              simp only [decoded] at read
              split at read
              · cases read
              · rename_i added
                cases read
                simp only [decoded]
                exact (rangesetEach_add (not_not.mp added)).2

theorem devtreeReadSelf_reserved {id : UInt32} {self : SelfInfo} (read : devtreeReadSelf root = .ok (id, self)) :
    readReserved root = .ok self.reserved := by
  rw [devtreeReadSelf] at read
  obtain ⟨name, -, read⟩ := Fallible.bind_eq_ok.mp read
  obtain ⟨id', -, read⟩ := Fallible.bind_eq_ok.mp read
  obtain ⟨cpus, -, read⟩ := Fallible.bind_eq_ok.mp read
  obtain ⟨reserved, regions, read⟩ := Fallible.bind_eq_ok.mp read
  cases read
  exact regions

end Self

theorem listForeign_map (present : DeviceId → Bool) (devices : List PciIds) :
    listForeign present (devices.map fun d => { d with iommu := 0 }) = listForeign present devices := by
  simp only [listForeign, List.filter_map, List.map_map]
  rfl

/-- What is assumed of the kernel: the host tree of an overlay that was applied goes into `/chosen` as it
was given. What else there is in the tree is up to the kernel. -/
def CarriesHostTree (calls : List KernelCall) (root : Node) : Prop :=
  ∀ tree host, .applyOverlay tree 0 ∈ calls → nodeAt tree hostTreePath = some host →
    dirAt root ["chosen", HOST_TREE_NODE] = some (host.shown HOST_TREE_NODE.toList)

section Armed

variable {cfg : KmorphConfig} {env : ArmEnv} {pool : PoolConfig} {ht : HostTree} {tree root : Node}
  {calls : List KernelCall}

theorem nodeAt_asked (sound : ht.Sound) (emits : buildInstanceCreate (armArgs cfg.name pool ht) = .ok tree) :
    nodeAt tree hostTreePath = some (emitted ht) := by
  rw [buildInstanceCreate, armArgs, instanceChosen, hostTreeEmit_emits sound.cpus sound.ram] at emits
  cases emits
  rfl

theorem CarriesHostTree.read (carries : CarriesHostTree calls root) (applied : .applyOverlay tree 0 ∈ calls)
    (sound : ht.Sound) (emits : buildInstanceCreate (armArgs cfg.name pool ht) = .ok tree) :
    readHostTree root = hostTreeRead (emitted ht) := by
  rw [readHostTree, carries tree _ applied (nodeAt_asked sound emits)]
  exact hostTreeRead_shown _ _

end Armed

section Machine

variable {m : MachineFiles} {ht : HostTree} {text : List Char}

theorem buildHostTree_found (found : buildHostTree m = .ok ht) :
    iomemSystemRam (fun _ => true) m.iomem rangesetInit = (0, ht.ram) ∧
      ht.devices = (pciListAll m.pciEntries m.sysfs).toOption.getD [] ∧
      ht.vmcore = if m.dump then readCrashLayout m.crash .init else .init := by
  simp only [buildHostTree] at found
  split at found
  · cases found
  · split at found
    · cases found
    · rename_i someRam
      cases found
      exact ⟨Prod.ext (not_not.mp (not_or.mp someRam).1) rfl, rfl, rfl⟩

theorem buildHostTree_ram (iomem : m.iomem = .ok text) (isIomem : IsIomem text) (found : buildHostTree m = .ok ht) :
    RamFits text ∧ ∀ a, a ∈ addresses ht.ram.r ↔ ∃ start stop, RamLine text start stop ∧ start ≤ a ∧ a ≤ stop := by
  obtain ⟨read, -⟩ := buildHostTree_found found
  rw [iomem] at read
  have fits : RamFits text := by
    rw [iomemSystemRam_eq isIomem] at read
    exact (ramRanges_valid isIomem).mp (rangesetEach_add_valid (by rw [read]))
  obtain ⟨-, -, union⟩ := iomemSystemRam_union isIomem fits
  rw [read] at union
  exact ⟨fits, union⟩

theorem ram_room {granule : ℕ} (normal : Normal ht.ram.r)
    (union : ∀ a, a ∈ addresses ht.ram.r ↔ ∃ start stop, RamLine text start stop ∧ start ≤ a ∧ a ≤ stop)
    (room : ∀ start stop, RamLine text start stop → stop + 1 + granule ≤ 2 ^ 64) :
    ∀ r ∈ ht.ram.r, r.base.toNat + r.size.toNat + granule ≤ 2 ^ 64 := by
  intro r member
  have sized := normal.nonempty r member
  -- The last byte of the range is in some line, which ends no earlier.
  obtain ⟨start, stop, isRam, -, below⟩ := (union (r.base.toNat + r.size.toNat - 1)).mp
    (mem_addresses.mpr ⟨r, member, by omega, by omega⟩)
  have := room start stop isRam
  omega

end Machine

/-- From the machine to the takeover: if the kernel hands on the host tree, a successor that was armed
plans to take the RAM that the predecessor listed but for its own and the regions that are published as
reserved, and the CPUs of the machine but for its own, whatever else its kernel tells it. -/
theorem armed_plan (cfg : KmorphConfig) (env : ArmEnv) (calls : List KernelCall)
    (directory : IsPciDirectory env.machine.pciEntries) (returned : armRun cfg env = some (0, calls))
    (text : List Char) (iomem : env.machine.iomem = .ok text) (isIomem : IsIomem text) (root : Node)
    (carries : CarriesHostTree calls root) (id : UInt32) (self : SelfInfo) (iommus : List Range)
    (selfRead : devtreeReadSelf root = .ok (id, self)) (unitsRead : devtreeReadIommus root = .ok iommus)
    (opsEnv : OpsEnv) (present : DeviceId → Bool) (claimFile : Option Range) :
    ∃ o, opsInitFrom opsEnv root present claimFile = .ok o ∧ o.self = self ∧ o.iommus = iommus ∧
      o.foreign = listForeign present ((pciListAll env.machine.pciEntries env.machine.sysfs).toOption.getD []) ∧
      ∀ a : PlanAnswers, (∀ start stop, RamLine text start stop → stop + 1 + a.granule.toNat ≤ 2 ^ 64) →
        (planAdoption a o).1 = 0 →
        let planned := (planAdoption a o).2
        (∀ x, x ∈ addresses planned.takeable.memory.r ↔
          (∃ start stop, RamLine text start stop ∧ start ≤ x ∧ x ≤ stop) ∧ x ∉ addresses a.ownRam.2.r ∧
            x ∉ addresses (reservedRegions root)) ∧
        (∀ cpu, cpu ∈ planned.takeable.cpus ↔ cpu ∈ machineCpus (env.files cfg) ∧ cpu ∉ self.ownCpus) ∧
        addresses planned.adoptable.r ∪ planned.claimed =
          wholeBlocks a.granule.toNat (addresses planned.takeable.memory.r) := by
  obtain ⟨_, pool, _, _, tree, _, before, -, -, -, -, ⟨ht, host, emits⟩, -, -, made⟩ := armRun_started returned
  have applied : .applyOverlay tree 0 ∈ calls := by simp [made]
  obtain ⟨sound, machine⟩ := @buildHostTree_sound (env.files cfg) _ directory host
  obtain ⟨-, listed, -⟩ := buildHostTree_found host
  obtain ⟨-, union⟩ := @buildHostTree_ram (env.files cfg) _ _ iomem isIomem host
  obtain ⟨ram, hostRead, sameRam⟩ := sound.read
  let carried : HostTree := { ht with ram := ram, devices := ht.devices.map fun d : PciIds => { d with iommu := 0 } }
  refine ⟨opsInit opsEnv self carried iommus present claimFile, ?_, rfl, rfl, ?_, ?_⟩
  · rw [opsInitFrom, selfRead, carries.read applied sound emits, hostRead, unitsRead]
    rfl
  · exact (listForeign_map present ht.devices).trans (by rw [listed]; rfl)
  · intro a room success planned
    have fits : RoomFor carried a.granule := by
      rw [RoomFor, sameRam]
      exact ram_room sound.normal union room
    have plan := planAdoption_planned (show RoomFor (opsInit opsEnv self carried iommus present claimFile).host _ from fits)
      success
    have reserved := readReserved_regions (devtreeReadSelf_reserved selfRead)
    refine ⟨fun x => ?_, fun cpu => ?_, plan.whole⟩
    · rw [plan.takeable.memory, Set.mem_sdiff, Set.mem_union, not_or, ← reserved, ← union, ← sameRam]
      rfl
    · rw [plan.takeable.cpus.exact, ← machine]
      rfl

def sampleIomem : List Char := "00100000-400fffff : System RAM\n".toList

theorem sampleIomem_lines : sampleIomem.splitOn '\n' = ["00100000-400fffff : System RAM".toList, []] := by decide

theorem sampleIomem_resource :
    IsResource "00100000-400fffff : System RAM".toList "00100000".toList "400fffff".toList "System RAM".toList :=
  ⟨⟨by decide, List.all_eq_true.mp (by decide)⟩, ⟨by decide, List.all_eq_true.mp (by decide)⟩, 0, by decide⟩

theorem sampleIomem_isIomem : IsIomem sampleIomem := by
  refine ⟨by decide, ?_⟩
  rw [sampleIomem_lines, List.forall_mem_cons, List.forall_mem_singleton]
  exact ⟨.inl ⟨_, _, _, sampleIomem_resource⟩, .inr ⟨-EINVAL, rfl⟩⟩

theorem sampleIomem_room {start stop : ℕ} (isRam : RamLine sampleIomem start stop) : stop = 0x400fffff := by
  have ranges : (sampleIomem.splitOn '\n').filterMap ramRange = [⟨0x100000, 0x40000000⟩] := by decide +kernel
  have fits : RamFits sampleIomem := by
    rw [← ramRanges_valid sampleIomem_isIomem, ranges, List.forall_mem_singleton]
    exact ⟨by decide, by decide⟩
  have member := (mem_ramRanges sampleIomem_isIomem).mpr ⟨start, stop, isRam, rfl⟩
  rw [ranges, List.mem_singleton] at member
  have span := ramOf_span (fits start stop isRam).1 (fits start stop isRam).2
  rw [member] at span
  have : stop + 1 = 0x40100000 := (Prod.mk.inj span).2.symm
  omega

/-- A device tree with one reserved region. -/
def sampleRoot (host : Node) : Node :=
  Node.shown [] (.mk [("model".toList, stringBytes "successor".toList), ("id".toList, cpuToFdt32 3)]
    [("resources".toList, .mk [("cpus".toList, cpuToFdt64 2)] []),
      ("chosen".toList, .mk [("multikernel,reserved-memory".toList, cpuToFdt64 0x200000 ++ cpuToFdt64 0x1000)]
        [(HOST_TREE_NODE.toList, host)])])

def sampleHost : Option Node := (buildHostTree (sampleArm.files sampleConfig)).toOption.map emitted

def sampleBoot : Option Ops := sampleHost.bind fun host =>
  (opsInitFrom sampleOps.env (sampleRoot host) (fun _ => false) none).toOption

theorem nodeAt_poolDeviceAdd (devices : List DeviceId) : nodeAt (buildPoolDeviceAdd devices) hostTreePath = none := rfl

theorem armed_plan_sample :
    ∃ calls o, armRun sampleConfig sampleArm = some (0, calls) ∧ sampleBoot = some o ∧
      (planAdoption samplePlan o).1 = 0 ∧ 0x100000 ∈ addresses (planAdoption samplePlan o).2.takeable.memory.r ∧
      0x200000 ∉ addresses (planAdoption samplePlan o).2.takeable.memory.r ∧
      (planAdoption samplePlan o).2.takeable.cpus = [0] := by
  have runs : (armRun sampleConfig sampleArm).map Prod.fst = some 0 := by decide +kernel
  obtain ⟨⟨ret, calls⟩, returned, rfl⟩ := Option.map_eq_some_iff.mp runs
  have planned : (sampleBoot.map fun o => ((planAdoption samplePlan o).1, (planAdoption samplePlan o).2.takeable.cpus)) =
      some (0, [0]) := by decide +kernel
  obtain ⟨o, booted, results⟩ := Option.map_eq_some_iff.mp planned
  obtain ⟨success, cpus⟩ := Prod.mk.inj results
  obtain ⟨host, given, started⟩ := Option.bind_eq_some_iff.mp booted
  obtain ⟨ht, built, rfl⟩ := Option.map_eq_some_iff.mp given
  have carries : CarriesHostTree calls (sampleRoot (emitted ht)) := by
    obtain ⟨_, pool, _, _, tree, _, before, -, -, -, -, ⟨ht', again, emits⟩, -, ofPool, rfl⟩ := armRun_started returned
    obtain rfl : ht' = ht := Except.ok.inj (again.symm.trans (Fallible.toOption_eq_some.mp built))
    have sound := (@buildHostTree_sound (sampleArm.files sampleConfig) _ sampleFiles_directory again).1
    intro other host applied found
    rcases List.mem_append.mp applied with first | last
    · cases ofPool _ first with
      | addDevices devices =>
          rw [nodeAt_poolDeviceAdd] at found
          cases found
    · simp only [List.mem_cons, List.not_mem_nil, or_false, KernelCall.applyOverlay.injEq, and_true, reduceCtorEq,
        mksysKexecLoad, mksysExec] at last
      rw [last, nodeAt_asked sound emits] at found
      cases found
      rfl
  have selfRead : ∃ self, devtreeReadSelf (sampleRoot (emitted ht)) = .ok (3, self) := ⟨_, rfl⟩
  obtain ⟨self, selfRead⟩ := selfRead
  have regions : reservedRegions (sampleRoot (emitted ht)) = [⟨0x200000, 0x1000⟩] := rfl
  obtain ⟨o', starts, -, -, -, plans⟩ := armed_plan sampleConfig sampleArm calls sampleFiles_directory returned
    sampleIomem rfl sampleIomem_isIomem _ carries 3 self [] selfRead rfl sampleOps.env (fun _ => false) none
  obtain rfl : o' = o := by
    rw [starts] at started
    exact Option.some.inj started
  have room : ∀ start stop, RamLine sampleIomem start stop → stop + 1 + samplePlan.granule.toNat ≤ 2 ^ 64 := by
    intro start stop isRam
    rw [sampleIomem_room isRam]
    decide
  obtain ⟨memory, -, -⟩ := plans samplePlan room success
  rw [regions] at memory
  refine ⟨calls, o', returned, booted, success, (memory _).mpr ⟨?_, ?_, ?_⟩, fun taken => ?_, cpus⟩
  · exact ⟨0x100000, 0x400fffff, ⟨_, by rw [sampleIomem_lines]; exact List.mem_cons_self, _, _, _,
      sampleIomem_resource, isSystemRam_iff.mp (by decide), by decide, by decide⟩, by decide, by decide⟩
  · simp [mem_addresses, samplePlan]
  · simp [mem_addresses]
  · exact ((memory _).mp taken).2.2 (mem_addresses.mpr ⟨⟨0x200000, 0x1000⟩, by simp, by decide, by decide⟩)

end Kmorph
