import Kmorph.BigEndian
import Kmorph.Libc
import Kmorph.RangesCore
import Mathlib.Data.Char
import Mathlib.Data.List.Lex
import Mathlib.Data.Nat.Digits.Defs

/-!
The host tree, `lib/host_tree.c` with `dt_emit_pci_devices` of `lib/dt.c`. A
`Node` is a node of a device tree with its properties and children: what libfdt
writes, and what `/proc/device-tree` shows as a directory of files. Memory
allocation succeeds throughout.
-/

namespace Kmorph

open BigEndian

structure PciIds where
  id : List Char
  vendor : UInt32
  device : UInt32
  classCode : UInt32
  iommu : UInt64
deriving Repr, DecidableEq

structure VmcoreInfo where
  hasPageOffset : Bool
  pageOffset : UInt64
  vmcoreinfo : Range
  cpuNotes : List Range
deriving Repr, DecidableEq

structure HostTree where
  cpus : List UInt64
  ram : Rangeset
  devices : List PciIds
  vmcore : VmcoreInfo
deriving Repr, DecidableEq

abbrev Name := List Char

inductive Node
  | mk (props : List (Name × List UInt8)) (children : List (Name × Node))

def Node.props : Node → List (Name × List UInt8)
  | .mk props _ => props

def Node.children : Node → List (Name × Node)
  | .mk _ children => children

def cpuToFdt32 (v : UInt32) : List UInt8 := encode 4 v.toNat

def cpuToFdt64 (v : UInt64) : List UInt8 := encode 8 v.toNat

def fdt32ToCpu (bytes : List UInt8) : UInt32 := UInt32.ofNat (decode bytes)

def fdt64ToCpu (bytes : List UInt8) : UInt64 := UInt64.ofNat (decode bytes)

def emitCells : List (Name × List UInt8) :=
  [("#address-cells".toList, cpuToFdt32 2), ("#size-cells".toList, cpuToFdt32 2)]

def fdtutilPropReg (base size : UInt64) : Name × List UInt8 :=
  ("reg".toList, cpuToFdt64 base ++ cpuToFdt64 size)

def fdtutilPropRegs (ranges : List Range) : Name × List UInt8 :=
  ("reg".toList, ranges.flatMap fun r => cpuToFdt64 r.base ++ cpuToFdt64 r.size)

def fdtutilPropCpulist (name : Name) (ids : List UInt64) : Name × List UInt8 :=
  (name, ids.flatMap cpuToFdt64)

def vmcoreInfoPresent (vi : VmcoreInfo) : Bool :=
  vi.hasPageOffset || vi.vmcoreinfo.size ≠ 0 || vi.cpuNotes ≠ []

def emitVmcore (vi : VmcoreInfo) : Name × Node :=
  ("vmcore".toList, .mk
    (emitCells ++
      if vi.hasPageOffset then [("page-offset".toList, cpuToFdt64 vi.pageOffset)] else [])
    ((if vi.vmcoreinfo.size ≠ 0 then
        [("vmcoreinfo".toList,
          .mk [fdtutilPropReg vi.vmcoreinfo.base vi.vmcoreinfo.size] [])]
      else []) ++
      if vi.cpuNotes ≠ [] then [("cpu-notes".toList, .mk [fdtutilPropRegs vi.cpuNotes] [])]
      else []))

/-- The node name of a PCI function: `:` and `.` of its id become `_`. -/
def pciNodeName (id : List Char) : Name :=
  ("pci_".toList ++ id).map fun c => if c = ':' ∨ c = '.' then '_' else c

def emitPciDeviceNode (d : PciIds) : Name × Node :=
  (pciNodeName d.id, .mk
    ([("device-type".toList, stringBytes "pci".toList), ("pci-id".toList, stringBytes d.id),
      ("vendor-id".toList, cpuToFdt32 d.vendor), ("device-id".toList, cpuToFdt32 d.device),
      ("class-code".toList, cpuToFdt32 d.classCode)] ++
      if d.iommu ≠ 0 then [("multikernel,iommu-base".toList, cpuToFdt64 d.iommu)] else [])
    [])

def dtEmitPciDevices (devices : List PciIds) : Name × Node :=
  ("devices".toList, .mk [] (devices.map emitPciDeviceNode))

def hexDigit (n : ℕ) : Char :=
  Char.ofNat (if n < 10 then '0'.toNat + n else 'a'.toNat + (n - 10))

/-- `%llx` -/
def hex (n : ℕ) : List Char :=
  if n = 0 then ['0'] else (Nat.digits 16 n).reverse.map hexDigit

def memoryNodeName (base : UInt64) : Name := "memory@".toList ++ hex base.toNat

def emitMemory (r : Range) : Name × Node :=
  (memoryNodeName r.base,
    .mk [("device_type".toList, stringBytes "memory".toList), fdtutilPropReg r.base r.size] [])

def hostTreeEmit (ht : HostTree) : Except Int Node :=
  if ht.cpus = [] ∨ ht.ram.r = [] then .error (-EINVAL)
  else
    .ok (.mk (emitCells ++ [fdtutilPropCpulist "cpus".toList ht.cpus])
      (ht.ram.r.map emitMemory ++
        (if ht.devices ≠ [] then [dtEmitPciDevices ht.devices] else []) ++
        if vmcoreInfoPresent ht.vmcore then [emitVmcore ht.vmcore] else []))

def fileRead (dir : Node) : List Name → Except Int (List UInt8)
  | [] => .error (-ENOENT)
  | [name] =>
      match dir.props.lookup name with
      | some bytes => .ok bytes
      | none => .error (-ENOENT)
  | name :: next :: rest =>
      match dir.children.lookup name with
      | some child => fileRead child (next :: rest)
      | none => .error (-ENOENT)

/-- `scandir` with `alphasort` in the C locale. -/
def scandir (dir : Node) (filter : Name → Bool) : List Name :=
  ((dir.props.map Prod.fst ++ dir.children.map Prod.fst).filter filter).mergeSort fun a b => a ≤ b

def readRegFile (dir : Node) (node : Name) (ram : Rangeset) : Except Int Rangeset :=
  match fileRead dir [node, "reg".toList] with
  | .error errno => .error errno
  | .ok cells =>
      if cells.length = 16 then
        let added := rangesetAdd true ram (fdt64ToCpu (cells.take 8)) (fdt64ToCpu (cells.drop 8))
        if added.1 = 0 then .ok added.2 else .error added.1
      else .error (-EINVAL)

def memoryNodeFilter (name : Name) : Bool := "memory@".toList.isPrefixOf name

def readOptional (dir : Node) (path : List Name) : Except Int (Option (List UInt8)) :=
  match fileRead dir path with
  | .ok bytes => .ok (some bytes)
  | .error errno => if errno = -ENOENT then .ok none else .error errno

def rangesOfCells : List ℕ → List Range
  | base :: size :: cells => ⟨UInt64.ofNat base, UInt64.ofNat size⟩ :: rangesOfCells cells
  | _ => []

def fdtutilCellsToRangelist (cells : List UInt8) : Except Int (List Range) :=
  if cells.length % 16 ≠ 0 then .error (-EINVAL)
  else .ok (rangesOfCells (words 8 (2 * (cells.length / 16)) cells))

def fdtutilCellsToCpulist (cells : List UInt8) : Except Int (List UInt64) :=
  if cells.length % 8 ≠ 0 then .error (-EINVAL)
  else .ok ((words 8 (cells.length / 8) cells).map UInt64.ofNat)

def readPageOffset (dir : Node) (vi : VmcoreInfo) : Except Int VmcoreInfo := do
  match ← readOptional dir ["vmcore".toList, "page-offset".toList] with
  | none => .ok vi
  | some cell =>
      if cell.length ≠ 8 then .error (-EINVAL)
      else .ok { vi with pageOffset := fdt64ToCpu cell, hasPageOffset := true }

def readVmcoreinfo (dir : Node) (vi : VmcoreInfo) : Except Int VmcoreInfo := do
  match ← readOptional dir ["vmcore".toList, "vmcoreinfo".toList, "reg".toList] with
  | none => .ok vi
  | some cells =>
      if cells.length ≠ 16 then .error (-EINVAL)
      else
        .ok { vi with vmcoreinfo := ⟨fdt64ToCpu (cells.take 8), fdt64ToCpu (cells.drop 8)⟩ }

def readCpuNotes (dir : Node) (vi : VmcoreInfo) : Except Int VmcoreInfo := do
  match ← readOptional dir ["vmcore".toList, "cpu-notes".toList, "reg".toList] with
  | none => .ok vi
  | some cells => return { vi with cpuNotes := ← fdtutilCellsToRangelist cells }

def VmcoreInfo.init : VmcoreInfo := ⟨false, 0, ⟨0, 0⟩, []⟩

def readVmcore (dir : Node) : Except Int VmcoreInfo := do
  readCpuNotes dir (← readVmcoreinfo dir (← readPageOffset dir VmcoreInfo.init))

def readDeviceU32 (dir : Node) (node : Name) (prop : String) : Except Int UInt32 := do
  match ← readOptional dir ["devices".toList, node, prop.toList] with
  | none => .ok 0
  | some cell => if cell.length = 4 then .ok (fdt32ToCpu cell) else .error (-EINVAL)

/-- `sizeof(d->id)` -/
def PCI_ID_SIZE : ℕ := 16

def readPciDevice (dir : Node) (node : Name) : Except Int PciIds := do
  let id ← fileRead dir ["devices".toList, node, "pci-id".toList]
  if id = [] ∨ id.length > PCI_ID_SIZE ∨ id.getLast? ≠ some 0 then .error (-EINVAL)
  else
    return {
      id := cString (id.map fun b => Char.ofNat b.toNat)
      vendor := ← readDeviceU32 dir node "vendor-id"
      device := ← readDeviceU32 dir node "device-id"
      classCode := ← readDeviceU32 dir node "class-code"
      iommu := 0
    }

def pciNodeFilter (name : Name) : Bool := "pci_".toList.isPrefixOf name

def readDevices (dir : Node) : Except Int (List PciIds) :=
  match dir.children.lookup "devices".toList with
  | none => .ok []
  | some devices => (scandir devices pciNodeFilter).mapM (readPciDevice dir)

def hostTreeRead (dir : Node) : Except Int HostTree := do
  let cpus ← fdtutilCellsToCpulist (← fileRead dir ["cpus".toList])
  let ram ← (scandir dir memoryNodeFilter).foldlM (fun ram node => readRegFile dir node ram) rangesetInit
  let devices ← readDevices dir
  let vmcore ← readVmcore dir
  return { cpus, ram, devices, vmcore }

end Kmorph
