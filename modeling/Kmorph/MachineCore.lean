import Kmorph.ImageCore
import Kmorph.IomemCore
import Kmorph.MadtCore
import Kmorph.OverlayCore

/-!
Executable model of what `kmorph arm` finds out about the machine: `build_host_tree`
of `kmorph/arm.c` with `lib/crashinfo.c`, `pci_list_all` of `lib/pci.c` and
`devtree_read_cpus` of `lib/devtree.c`. A directory of the device tree is a node.
Memory allocation succeeds.
-/

namespace Kmorph

section Files

def fileReadString (file : Except Int (List Char)) : Except Int (List Char) :=
  file.map fun bytes => cString (fileString bytes)

def fileReadU32 (file : Except Int (List Char)) : Except Int UInt32 := do
  let s ← fileReadString file
  if s.head?.any Char.isDigit then
    let n := strtoul s
    if n.2 = [] ∧ n.1 ≤ 2 ^ 32 - 1 then .ok (.ofNat n.1) else .error (-EINVAL)
  else .error (-EINVAL)

/-- The number and where it ends. -/
def parseHex (s : List Char) : Except Int (UInt64 × List Char) :=
  if s = [] then .error (-EINVAL)
  else
    let n := strtoullHex s
    if n.2.length = s.length then .error (-EINVAL) else .ok (.ofNat n.1, n.2)

/-- What `read_hex_file` returns and leaves at `v`: a number that something follows is stored all the same. -/
def readHexFile (file : Except Int (List Char)) (v : UInt64) : Int × UInt64 :=
  match fileReadString file with
  | .error ret => (ret, v)
  | .ok text =>
      match parseHex text with
      | .error ret => (ret, if text = [] then v else 0)
      | .ok (v, rest) => (if rest ≠ [] then -EINVAL else 0, v)

end Files

section Crashinfo

def crashinfoReadVmcoreinfo (file : Except Int (List Char)) : Except Int Range := do
  let (base, p) ← parseHex (← fileReadString file)
  if p.head? ≠ some ' ' then .error (-EINVAL)
  else
    let (size, p) ← parseHex p.tail
    if p ≠ [] ∨ size = 0 then .error (-EINVAL) else .ok ⟨base, size⟩

/-- The two files of a CPU's directory. -/
structure CpuFiles where
  crashNotes : Except Int (List Char)
  crashNotesSize : Except Int (List Char)

def readCpuNote (files : CpuFiles) : Range :=
  let (ret, base) := readHexFile files.crashNotes 0
  if ret ≠ 0 then ⟨base, 0⟩
  else
    match fileReadU32 files.crashNotesSize with
    | .error _ => ⟨0, 0⟩
    | .ok size => ⟨base, size.toUInt64⟩

example : readCpuNote ⟨.ok "12g\n".toList, .ok "440\n".toList⟩ = ⟨0x12, 0⟩ := by decide +kernel

/-- The directories `cpu0`, `cpu1`, … up to the first number that has none. -/
def crashinfoReadCpuNotes (cpus : List CpuFiles) : Except Int (List Range) :=
  let notes := cpus.map readCpuNote
  if notes.any (·.size ≠ 0) then .ok notes else .error (-ENOENT)

structure CrashFiles where
  vmcoreinfo : Except Int (List Char)
  cpus : List CpuFiles
  kcore : Except Int (List UInt8)

/-- Absence only costs the dump its notes or direct map. -/
def readCrashLayout (files : CrashFiles) (vi : VmcoreInfo) : VmcoreInfo :=
  let vi := match crashinfoReadVmcoreinfo files.vmcoreinfo with
    | .ok r => { vi with vmcoreinfo := r }
    | .error _ => vi
  let vi := { vi with cpuNotes := (crashinfoReadCpuNotes files.cpus).toOption.getD [] }
  match crashinfoReadPageOffset true files.kcore with
  | .ok offset => { vi with pageOffset := .ofNat offset, hasPageOffset := true }
  | .error _ => vi

end Crashinfo

section Pci

/-- The entries of the directory, or why it cannot be read. -/
def pciListAll (entries : Except Int (List Name)) (sysfs : PciSysfs) : Except Int (List PciIds) := do
  let names := ((← entries).filter pciIdValid).mergeSort fun a b => a ≤ b
  names.mapM (pciReadIds sysfs)

end Pci

section Devtree

/-- A property of one or two cells. -/
def readBeCells (dir : Node) (path : List Name) (cells : ℕ) : Except Int UInt64 := do
  let bytes ← fileRead dir path
  if cells = 0 ∨ cells > 2 ∨ bytes.length ≠ cells * 4 then .error (-EINVAL)
  else .ok (.ofNat (BigEndian.decode bytes))

def isCpuNode (cpusDir : Node) (name : Name) : Bool :=
  match fileRead cpusDir [name, "device_type".toList] with
  | .error _ => false
  | .ok type => type = stringBytes "cpu".toList

/-- The loop over the directory, in the order it is read in. -/
def devtreeCpus (cpusDir : Node) (cells : ℕ) : List Name → List UInt64 → Except Int (List UInt64)
  | [], out => .ok out
  | name :: rest, out =>
      if name.head? = some '.' ∨ !isCpuNode cpusDir name then devtreeCpus cpusDir cells rest out
      else do
        let id ← readBeCells cpusDir [name, "reg".toList] cells
        devtreeCpus cpusDir cells rest (out ++ [id])

def devtreeReadCpus (cpusDir : Node) : Except Int (List UInt64) := do
  let cells ← readBeCells cpusDir ["#address-cells".toList] 1
  let out ← devtreeCpus cpusDir cells.toUInt32.toNat
    (cpusDir.props.map Prod.fst ++ cpusDir.children.map Prod.fst) []
  if out = [] then .error (-ENOENT) else .ok (cpulistNormalize out)

end Devtree

/-- What `build_host_tree` reads: the config's `machine_cpus` and whether it sets `dump`, and the files
of the machine. A directory that is not there is `none`. -/
structure MachineFiles where
  machineCpus : List UInt64
  dump : Bool
  madt : Except Int (List UInt8)
  ownHostTree : Option Node
  dtCpus : Option Node
  iomem : Except Int (List Char)
  pciEntries : Except Int (List Name)
  sysfs : PciSysfs
  crash : CrashFiles

def inheritCpusFromOwnHostTree (m : MachineFiles) : List UInt64 :=
  match m.ownHostTree with
  | none => []
  | some dir =>
      match hostTreeRead dir with
      | .ok own => own.cpus
      | .error _ => []

def cpusFromFirmwareTree (m : MachineFiles) : List UInt64 :=
  match m.dtCpus with
  | none => []
  | some dir => (devtreeReadCpus dir).toOption.getD []

/-- The CPUs of the machine: from the config, else the firmware's table, else a device tree. -/
def machineCpus (m : MachineFiles) : List UInt64 :=
  if m.machineCpus ≠ [] then m.machineCpus
  else
    let (ret, cpus) := madtReadCpus (fun _ => true) m.madt
    if ret = -ENOENT then
      let inherited := inheritCpusFromOwnHostTree m
      if inherited = [] then cpusFromFirmwareTree m else inherited
    else cpus

def buildHostTree (m : MachineFiles) : Except Int HostTree :=
  let cpus := machineCpus m
  if cpus = [] then .error (-ENOENT)
  else
    let (ret, ram) := iomemSystemRam (fun _ => true) m.iomem rangesetInit
    if ret ≠ 0 ∨ ram.r = [] then .error (if ret ≠ 0 then ret else -ENOENT)
    else
      .ok {
        cpus
        ram
        devices := (pciListAll m.pciEntries m.sysfs).toOption.getD []
        vmcore := if m.dump then readCrashLayout m.crash .init else .init
      }

end Kmorph
