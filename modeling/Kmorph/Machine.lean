import Kmorph.Dt
import Kmorph.FdtPool
import Kmorph.Iomem
import Kmorph.MachineCore

/-!
The host tree from the files of the machine to the successor: what `build_host_tree`
returns keeps to the form that the reader asks for, the instance-create overlay
carries it, and `host_tree_read` finds it there again.
-/

namespace Kmorph

open Fdt

/-- What a reader of the emitted tree needs to find the same again. -/
structure HostTree.Sound (ht : HostTree) : Prop where
  cpus : ht.cpus ≠ []
  ram : ht.ram.r ≠ []
  normal : Normal ht.ram.r
  valid : ∀ d ∈ ht.devices, PciId d.id
  ascending : ht.devices.Pairwise fun first second => first.id < second.id
  trimmed : ht.vmcore.trimmed = ht.vmcore

/-- A directory of PCI functions: no name stands twice, and one that looks like an address is one. -/
def IsPciDirectory (entries : Except Int (List Name)) : Prop :=
  ∀ names, entries = .ok names → names.Nodup ∧ ∀ name ∈ names, pciIdValid name = true → PciId name

section Files

variable {m : MachineFiles} {ht : HostTree}

theorem iomemSystemRam_normal {file : Except Int (List Char)}
    (read : (iomemSystemRam (fun _ => true) file rangesetInit).1 = 0) :
    Normal (iomemSystemRam (fun _ => true) file rangesetInit).2.r := by
  cases file with
  | error ret => exact normal_nil
  | ok bytes =>
      simp only [iomemSystemRam, iomemLoop_eq] at read ⊢
      exact (rangesetEach_add read).1

theorem pciReadIds_named {sysfs : PciSysfs} {id : DeviceId} {d : PciIds} (read : pciReadIds sysfs id = .ok d) :
    d.id = id := by
  rw [pciReadIds] at read
  split at read
  · cases read
  · rename_i valid
    have short : id.length = 12 := by
      simp only [pciIdValid, Bool.not_eq_true', Bool.not_eq_false, Bool.and_eq_true, decide_eq_true_eq] at valid
      exact valid.1
    simp only [Fallible.bind_eq_ok] at read
    obtain ⟨vendor, -, device, -, code, -, done⟩ := read
    cases done
    exact List.take_of_length_le (by simp only [PCI_ID_SIZE]; omega)

theorem pciListAll_sound {entries : Except Int (List Name)} {sysfs : PciSysfs} {devices : List PciIds}
    (directory : IsPciDirectory entries) (listed : pciListAll entries sysfs = .ok devices) :
    (∀ d ∈ devices, PciId d.id) ∧ devices.Pairwise fun first second => first.id < second.id := by
  obtain ⟨names, read, listed⟩ := Fallible.bind_eq_ok.mp listed
  obtain ⟨distinct, addresses⟩ := directory names read
  have ids := @Fallible.mapM_filterMap _ _ _ _ _ some PciIds.id _ _
    (fun name _ d read => by rw [pciReadIds_named read]) listed
  rw [List.filterMap_some] at ids
  have perm := List.mergeSort_perm (names.filter pciIdValid) fun a b => a ≤ b
  have sorted : ((names.filter pciIdValid).mergeSort fun a b => a ≤ b).Pairwise (· ≤ ·) := by
    refine (List.pairwise_mergeSort ?_ ?_ _).imp of_decide_eq_true
    · intro a b c first second
      exact decide_eq_true (le_trans (of_decide_eq_true first) (of_decide_eq_true second))
    · intro a b
      rw [Bool.or_eq_true, decide_eq_true_eq, decide_eq_true_eq]
      exact le_total a b
  constructor
  · intro d member
    have named : d.id ∈ names.filter pciIdValid := by
      rw [← perm.mem_iff, ids]
      exact List.mem_map_of_mem member
    obtain ⟨inside, valid⟩ := List.mem_filter.mp named
    exact addresses _ inside valid
  · rw [← List.pairwise_map, ← ids]
    exact (sorted.and ((distinct.filter _).perm perm.symm)).imp fun order => lt_of_le_of_ne order.1 order.2

theorem readCrashLayout_trimmed (files : CrashFiles) :
    (readCrashLayout files .init).trimmed = readCrashLayout files .init := by
  have sized {r : Range} (read : crashinfoReadVmcoreinfo files.vmcoreinfo = .ok r) : r.size ≠ 0 := by
    simp only [crashinfoReadVmcoreinfo, Fallible.bind_eq_ok] at read
    obtain ⟨text, -, base, -, read⟩ := read
    split at read
    · cases read
    · obtain ⟨size, -, read⟩ := Fallible.bind_eq_ok.mp read
      split at read
      · cases read
      · rename_i given
        cases read
        exact fun zero => given (.inr zero)
  rw [VmcoreInfo.trimmed_eq_iff]
  simp only [readCrashLayout]
  constructor
  · cases crashinfoReadPageOffset true files.kcore <;> cases crashinfoReadVmcoreinfo files.vmcoreinfo <;>
      simp [VmcoreInfo.init]
  · cases read : crashinfoReadVmcoreinfo files.vmcoreinfo with
    | error errno => cases crashinfoReadPageOffset true files.kcore <;> simp [VmcoreInfo.init]
    | ok r => cases crashinfoReadPageOffset true files.kcore <;> simp [sized read]

theorem buildHostTree_sound (directory : IsPciDirectory m.pciEntries) (built : buildHostTree m = .ok ht) :
    ht.Sound ∧ ht.cpus = machineCpus m := by
  simp only [buildHostTree] at built
  split at built
  · cases built
  · rename_i someCpu
    split at built
    · cases built
    · rename_i someRam
      obtain ⟨read, filled⟩ := not_or.mp someRam
      have normal := iomemSystemRam_normal (not_not.mp read)
      cases built
      refine ⟨⟨someCpu, filled, normal, ?_, ?_, ?_⟩, rfl⟩
      · cases listed : pciListAll m.pciEntries m.sysfs with
        | error errno => exact fun d member => absurd member List.not_mem_nil
        | ok devices => exact (pciListAll_sound directory listed).1
      · cases listed : pciListAll m.pciEntries m.sysfs with
        | error errno => exact .nil
        | ok devices => exact (pciListAll_sound directory listed).2
      · simp only
        split
        · exact readCrashLayout_trimmed m.crash
        · rfl

end Files

theorem HostTree.Sound.read {ht : HostTree} (sound : ht.Sound) :
    ∃ ram, hostTreeRead (emitted ht) = .ok ⟨ht.cpus, ram, ht.devices.map fun d => { d with iommu := 0 }, ht.vmcore⟩ ∧
      ram.r = ht.ram.r := by
  obtain ⟨ram, ramRead, same⟩ := readRam_emitted sound.normal
  have cpusRead : fileRead (emitted ht) ["cpus".toList] = .ok (ht.cpus.flatMap cpuToFdt64) := rfl
  refine ⟨ram, ?_, same⟩
  simp only [hostTreeRead, cpusRead, fdtutilCellsToCpulist_prop, ramRead,
    readDevices_emitted sound.normal sound.valid sound.ascending, readVmcore_emitted sound.normal, sound.trimmed,
    bind, Except.bind]
  rfl

theorem HostTree.Sound.strings {ht : HostTree} (sound : ht.Sound) {a : InstanceArgs} (host : a.hostTree = some ht)
    (names : ∀ name ∈ a.platformDevices, CString name) : (DtRequest.instanceCreate a).Strings := by
  refine ⟨names, ?_⟩
  intro carried same d member
  obtain rfl : ht = carried := Option.some.inj (host.symm.trans same)
  exact (sound.valid d member).plain.2

section Paths

variable {fdt : List UInt8} {offset : Int} {name : Name} {node child : Node}

theorem Fdt.Stands.walk {path : List String} (strings : ∀ wanted ∈ path, CString wanted.toList)
    (stands : Stands fdt offset name node) (found : nodeAt node path = some child) :
    ∃ last lastName, pathLoop fdt (path.map fun wanted => nameBytes wanted.toList) offset = some last ∧
      Stands fdt last lastName child := by
  induction path generalizing offset name node with
  | nil =>
      cases found
      exact ⟨offset, name, rfl, stands⟩
  | cons wanted path ih =>
      obtain ⟨first, others⟩ := List.forall_mem_cons.mp strings
      obtain ⟨next, inside, found⟩ := Option.bind_eq_some_iff.mp found
      obtain ⟨below, walked, which⟩ := stands.subnode first
      rw [inside] at which
      obtain ⟨nextName, stands⟩ := which
      rw [List.map_cons, pathLoop, walked]
      simp only
      rw [if_neg (by have := stands.nonneg; omega)]
      exact ih others stands found

end Paths

/-- Where the instance-create overlay carries the host tree. -/
def hostTreePath : List String := ["fragment@0", "__overlay__", "instance-create", "chosen", HOST_TREE_NODE]

theorem nodeAt_instanceCreate {a : InstanceArgs} {ht : HostTree} {tree : Node} (host : a.hostTree = some ht)
    (sound : ht.Sound) (built : (DtRequest.instanceCreate a).tree = .ok tree) :
    nodeAt tree hostTreePath = some (emitted ht) := by
  rw [DtRequest.tree] at built
  split at built
  · cases built
  · rw [buildInstanceCreate, host, instanceChosen, hostTreeEmit_emits sound.cpus sound.ram] at built
    cases built
    rfl

/-- `hostTreePath` as a path of the blob. -/
def hostTreeText : String := "/fragment@0/__overlay__/instance-create/chosen/multikernel,host-tree"

theorem nodeAt_pathOffset {fdt : List UInt8} {tree node : Node} (flat : Flat fdt (tree.tokens []))
    (found : nodeAt tree hostTreePath = some node) :
    ∃ offset name, fdtPathOffset fdt (nameBytes hostTreeText.toList) = some offset ∧ Stands fdt offset name node := by
  obtain ⟨offset, name, walked, stands⟩ := flat.stands.walk (by decide) found
  refine ⟨offset, name, ?_, stands⟩
  have split : ((nameBytes hostTreeText.toList).splitOn 0x2f).filter (· ≠ []) =
      hostTreePath.map fun wanted => nameBytes wanted.toList := by decide +kernel
  rw [fdtPathOffset, if_neg stands.1.roProbe_nonneg, if_neg (by decide), split]
  exact walked

/-- The machine as `kmorph arm` finds it is what the successor reads: the overlay that creates the
instance carries it to where the successor looks, whatever the files said. Only the IOMMU of a function
stays behind. -/
theorem armedHostTree_read (m : MachineFiles) (directory : IsPciDirectory m.pciEntries) (ht : HostTree)
    (found : buildHostTree m = .ok ht) (a : InstanceArgs) (host : a.hostTree = some ht)
    (names : ∀ name ∈ a.platformDevices, CString name) (memory : BuildMemory) (fdt : List UInt8)
    (built : dtBuild memory (.instanceCreate a) = some (.ok fdt)) :
    ∃ offset name node read, fdtPathOffset fdt (nameBytes hostTreeText.toList) = some offset ∧
      Reads fdt offset name node ∧ hostTreeRead node = .ok read ∧ read.cpus = machineCpus m ∧
      read.ram.r = ht.ram.r ∧ read.devices = ht.devices.map (fun d => { d with iommu := 0 }) ∧
      read.vmcore = ht.vmcore := by
  obtain ⟨sound, cpus⟩ := buildHostTree_sound directory found
  obtain ⟨tree, emits, flat⟩ := dtBuild_flat (sound.strings host names) built
  obtain ⟨offset, name, walked, stands⟩ := nodeAt_pathOffset flat (nodeAt_instanceCreate host sound emits)
  obtain ⟨ram, reads, same⟩ := sound.read
  exact ⟨offset, name, _, _, walked, Stands.reads _ stands, reads, cpus, same, rfl, rfl⟩

/-- Two CPUs, a gigabyte and one function. -/
def sampleFiles : MachineFiles where
  machineCpus := [0, 2]
  dump := false
  madt := .error (-ENOENT)
  ownHostTree := none
  dtCpus := none
  iomem := .ok "00100000-400fffff : System RAM\n".toList
  pciEntries := .ok ["0000:00:1f.2".toList]
  sysfs := fun _ attr =>
    match attr with
    | .iommu => .error (-ENOENT)
    | _ => .ok "0x10601\n".toList
  crash := ⟨.error (-ENOENT), [], .error (-ENOENT)⟩

def sampleCreate : InstanceArgs where
  name := "next".toList
  cpus := [2]
  memoryBytes := 0x10000000
  devices := []
  platformDevices := ["serial8250".toList]
  hostTree := (buildHostTree sampleFiles).toOption

theorem sampleFiles_directory : IsPciDirectory sampleFiles.pciEntries := by
  intro names read
  cases read
  refine ⟨by decide, ?_⟩
  intro name member _
  rw [List.mem_singleton.mp member]
  exact ⟨'0', '0', '0', '0', '0', '0', '1', 'f', '2', rfl, by simp [isHexDigit]⟩

theorem armedHostTree_read_sample :
    IsPciDirectory sampleFiles.pciEntries ∧ ∃ ht fdt, buildHostTree sampleFiles = .ok ht ∧
      sampleCreate.hostTree = some ht ∧ dtBuild .all (.instanceCreate sampleCreate) = some (.ok fdt) ∧
      ∃ offset name node read, fdtPathOffset fdt (nameBytes hostTreeText.toList) = some offset ∧
        Reads fdt offset name node ∧ hostTreeRead node = .ok read ∧ read.cpus = [0, 2] ∧ read.ram.r = ht.ram.r := by
  have directory := sampleFiles_directory
  have found : (buildHostTree sampleFiles).toOption.isSome = true := by decide +kernel
  obtain ⟨ht, host⟩ := Option.isSome_iff_exists.mp found
  have found := Fallible.toOption_eq_some.mp host
  have names : ∀ name ∈ sampleCreate.platformDevices, CString name := by decide
  have small : (DtRequest.instanceCreate sampleCreate).tree.toOption.any
      (fun tree => neededSize tree ≤ 4 * 1024 * 1024) = true := by decide +kernel
  obtain ⟨tree, emits, small⟩ := (Option.any_eq_true ..).mp small
  obtain ⟨fdt, built⟩ := dtBuild_granted ((buildHostTree_sound directory found).1.strings host names)
    (Fallible.toOption_eq_some.mp emits) (of_decide_eq_true small)
  obtain ⟨offset, name, node, read, walked, reads, same, cpus, ram, -⟩ :=
    armedHostTree_read sampleFiles directory ht found sampleCreate host names _ fdt built
  exact ⟨directory, ht, fdt, found, host, built, offset, name, node, read, walked, reads, same, cpus, ram⟩

end Kmorph
