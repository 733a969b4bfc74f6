import Kmorph.ArmCore
import Kmorph.PoolCore

/-!
Executable model of the trees about devices that `kmorph arm` reads and writes: the
pool in the root tree and the overlays of `lib/dt.c`, `arm_pool_add_devices` and
`create_instance` of `kmorph/arm.c`, and `pci_read_ids` of `lib/pci.c`. A tree that
is read has passed `fdtutil_check`; memory allocation succeeds where no answer says
otherwise.
-/

namespace Kmorph

section Tree

def fdtGetprop (node : Node) (name : String) : Option (List UInt8) := node.props.lookup name.toList

/-- A name without a unit address also stands for a node that has one. -/
def fdtNodenameEq (node s : Name) : Bool :=
  s.isPrefixOf node &&
    match node.drop s.length with
    | [] => true
    | c :: _ => !s.contains '@' && c = '@'

def fdtSubnode (node : Node) (name : String) : Option Node :=
  (node.children.find? fun child => fdtNodenameEq child.1 name.toList).map Prod.snd

/-- A property read as a string. What follows it in the tree starts with a zero byte. -/
def propString (bytes : List UInt8) : List Char := cString (bytes.map fun b => Char.ofNat b.toNat)

/-- The last string of the list needs no NUL of its own, by what follows it. -/
def fdtNodeCompatible (node : Node) (compatible : String) : Bool :=
  match fdtGetprop node "compatible" with
  | none => false
  | some list => (list.splitOn 0).any fun item => item.map (fun b => Char.ofNat b.toNat) = compatible.toList

def fdtutilReadReg (node : Node) : Except Int (UInt64 × UInt64) :=
  match fdtGetprop node "reg" with
  | none => .error (-EINVAL)
  | some reg =>
      if reg.length ≠ 16 then .error (-EINVAL) else .ok (fdt64ToCpu (reg.take 8), fdt64ToCpu (reg.drop 8))

def fdtutilReadU64 (node : Node) (name : String) : Except Int UInt64 :=
  match fdtGetprop node name with
  | none => .error (-EINVAL)
  | some cell => if cell.length ≠ 8 then .error (-EINVAL) else .ok (fdt64ToCpu cell)

def fdtutilReadCpulist (node : Node) (name : String) : Except Int (List UInt64) :=
  match fdtGetprop node name with
  | none => .error (-ENOENT)
  | some cells => fdtutilCellsToCpulist cells

end Tree

section Pool

structure PoolView where
  freeCpus : List UInt64
  totalBytes : UInt64
  freeBytes : UInt64
  devices : List DeviceId
  platformDevices : List Name
deriving Repr, DecidableEq

def sumChunks (resources : Node) : UInt64 :=
  resources.children.foldl (fun total (name, node) =>
    if memoryNodeFilter name then
      match fdtutilReadReg node with
      | .ok (_, size) => total + size
      | .error _ => total
    else total) 0

def sumInstanceMemory (tree : Node) : UInt64 :=
  match fdtSubnode tree "instances" with
  | none => 0
  | some instances =>
      instances.children.foldl (fun total (_, node) =>
        match (fdtSubnode node "resources").map (fdtutilReadU64 · "memory-bytes") with
        | some (.ok bytes) => total + bytes
        | _ => total) 0

structure PciFunction where
  domain : ℕ
  bus : ℕ
  device : ℕ
  function : ℕ
deriving Repr, DecidableEq

/-- The first cell of `reg` holds bus and devfn as in the PCI binding. -/
def regFunction (domain hi : UInt32) : PciFunction where
  domain := domain.toNat
  bus := (hi >>> 16 &&& 0xff).toNat
  device := (hi >>> 11 &&& 0x1f).toNat
  function := (hi >>> 8 &&& 0x7).toNat

def hexPadded (width n : ℕ) : List Char := List.replicate (width - (hex n).length) '0' ++ hex n

/-- What `"%04x:%02x:%02x.%x"` leaves in a buffer of 16 bytes. -/
def formatFunction (f : PciFunction) : DeviceId :=
  (hexPadded 4 f.domain ++ ':' :: (hexPadded 2 f.bus ++ ':' ::
    (hexPadded 2 f.device ++ '.' :: hex f.function))).take 15

/-- A read of four bytes takes the zeros that pad a shorter property; behind an empty one it takes
the token that follows, `beyond`. -/
def pciDomain (beyond : UInt32) (bridge : Node) : UInt32 :=
  match fdtGetprop bridge "linux,pci-domain" with
  | none => 0
  | some [] => beyond
  | some cells => fdt32ToCpu ((cells ++ [0, 0, 0]).take 4)

def pciFunctionId (domain : UInt32) (node : Node) : Except Int DeviceId :=
  match fdtGetprop node "reg" with
  | none => .error (-EINVAL)
  | some reg =>
      if reg.length < 4 then .error (-EINVAL)
      else .ok (formatFunction (regFunction domain (fdt32ToCpu (reg.take 4))))

def collectPciFunctions (beyond : UInt32) (bridge : Node) : Except Int (List DeviceId) :=
  let functions := bridge.children.filter fun child => (fdtGetprop child.2 "vendor-id").isSome
  functions.mapM fun child => pciFunctionId (pciDomain beyond bridge) child.2

def PCI_HOST_BRIDGE_COMPATIBLE : String := "multikernel,pci-host-bridge"

/-- The token behind an empty domain property may differ from bridge to bridge. -/
def collectPoolPci (beyond : Node → UInt32) (tree : Node) : Except Int (List DeviceId) := do
  let bridges := tree.children.filter fun child => fdtNodeCompatible child.2 PCI_HOST_BRIDGE_COMPATIBLE
  let functions ← bridges.mapM fun bridge => collectPciFunctions (beyond bridge.2) bridge.2
  return functions.flatten

def collectPlatformDevices (resources : Node) : List Name :=
  match fdtSubnode resources "devices" with
  | none => []
  | some devices =>
      devices.children.filterMap fun (name, node) =>
        if (fdtGetprop node "device-type").map propString = some "platform".toList then
          some (((fdtGetprop node "device-name").map propString).getD name)
        else none

def readFreeCpus (resources : Node) : Except Int (List UInt64) :=
  match fdtutilReadCpulist resources "cpus-available" with
  | .ok cpus => .ok cpus
  | .error errno => if errno = -ENOENT then .ok [] else .error errno

def dtReadPool (beyond : Node → UInt32) (tree : Node) : Except Int PoolView :=
  match fdtSubnode tree "resources" with
  | none => .error (-ENOENT)
  | some resources => do
      let freeCpus ← readFreeCpus resources
      -- A kernel with no pool still describes itself here; chunks mean a pool.
      let totalBytes := sumChunks resources
      if totalBytes = 0 then .error (-ENOENT)
      else
        let used := sumInstanceMemory tree
        return {
          freeCpus
          totalBytes
          freeBytes := if used < totalBytes then totalBytes - used else 0
          devices := ← collectPoolPci beyond tree
          platformDevices := collectPlatformDevices resources
        }

end Pool

section Overlays

def OVERLAY_COMPATIBLE : String := "linux,multikernel-overlay"
def INSTANCES_PATH : String := "/instances"
def POOL_PATH : String := "/resources"

def overlayCompatible : Name × List UInt8 :=
  ("compatible".toList, stringBytes OVERLAY_COMPATIBLE.toList)

def overlayFragment (index : ℕ) (target : List Char) (child : Name × Node) : Name × Node :=
  ("fragment@".toList ++ formatUnsigned index, .mk [("target-path".toList, stringBytes target)]
    [("__overlay__".toList, .mk [] [child])])

def emitDeviceAdd (fragment : ℕ) (target : List Char) (devices : List DeviceId) : Name × Node :=
  overlayFragment fragment target ("device-add".toList, .mk [] (devices.zipIdx.map fun (id, i) =>
    ("pci@".toList ++ formatUnsigned i, .mk [("pci-id".toList, stringBytes id)] [])))

def buildPoolDeviceAdd (devices : List DeviceId) : Node :=
  .mk [overlayCompatible] [emitDeviceAdd 0 POOL_PATH.toList devices]

def dtBuildPoolDeviceAdd (built : Int) (devices : List DeviceId) : Except Int Node :=
  if devices = [] then .error (-EINVAL)
  else if built ≠ 0 then .error built
  else .ok (buildPoolDeviceAdd devices)

structure InstanceArgs where
  name : List Char
  cpus : List UInt64
  memoryBytes : UInt64
  devices : List DeviceId
  platformDevices : List Name
  hostTree : Option HostTree

def HOST_TREE_NODE : String := "multikernel,host-tree"

/-- `INSTANCES_PATH "/%s"` in a buffer of 256 bytes -/
def instanceTarget (name : List Char) : List Char := (INSTANCES_PATH.toList ++ '/' :: name).take 255

def instanceResources (a : InstanceArgs) : Name × Node :=
  ("resources".toList, .mk
    [fdtutilPropCpulist "cpus".toList a.cpus, ("memory-bytes".toList, cpuToFdt64 a.memoryBytes)]
    (if a.platformDevices ≠ [] then
      [("devices".toList, .mk [] (a.platformDevices.map emitPlatformDeviceNode))]
    else []))

def instanceChosen (hostTree : Option HostTree) : Except Int (List (Name × Node)) :=
  match hostTree with
  | none => .ok []
  | some ht => do return [("chosen".toList, .mk [] [(HOST_TREE_NODE.toList, ← hostTreeEmit ht)])]

/-- Devices join by a second fragment against the instance the first one creates. -/
def buildInstanceCreate (a : InstanceArgs) : Except Int Node := do
  let chosen ← instanceChosen a.hostTree
  let create := ("instance-create".toList, Node.mk [("instance-name".toList, stringBytes a.name)]
    (instanceResources a :: chosen))
  return .mk [overlayCompatible] (overlayFragment 0 INSTANCES_PATH.toList create ::
    if a.devices ≠ [] then [emitDeviceAdd 1 (instanceTarget a.name) a.devices] else [])

def dtBuildInstanceCreate (built : Int) (a : InstanceArgs) : Except Int Node :=
  if a.cpus = [] ∨ a.memoryBytes = 0 then .error (-EINVAL)
  else
    match buildInstanceCreate a with
    | .error _ => .error (-EINVAL)
    | .ok dtbo => if built ≠ 0 then .error built else .ok dtbo

end Overlays

def missingDevices (devices : List DeviceId) (pool : PoolView) : List DeviceId :=
  devices.filter fun device => !strlistContains pool.devices device

/-- The result and the overlays handed to the kernel; `granted` is the allocation of the list. -/
def armPoolAddDevices (granted : Bool) (answer : OverlayAnswer) (devices : List DeviceId) (pool : PoolView) :
    Int × List Node :=
  if !granted then (-ENOMEM, [])
  else
    let missing := missingDevices devices pool
    if missing = [] then (0, [])
    else
      match dtBuildPoolDeviceAdd answer.built missing with
      | .error ret => (ret, [])
      | .ok dtbo => (if answer.applied ≠ 0 then answer.applied else toInt missing.length, [dtbo])

/-- The host tree is what `build_host_tree` returns. -/
def createInstance (name : List Char) (cfg : PoolConfig) (hostTree : Except Int HostTree)
    (answer : OverlayAnswer) : Int × List Node :=
  match hostTree with
  | .error ret => (ret, [])
  | .ok ht =>
      match dtBuildInstanceCreate answer.built
          ⟨name, cfg.cpus, cfg.memory, cfg.devices, consolePlatformDevices cfg, some ht⟩ with
      | .error ret => (ret, [])
      | .ok dtbo => (answer.applied, [dtbo])

section Pci

inductive PciAttr
  | vendor
  | device
  | classCode
  | iommu
deriving Repr, DecidableEq

/-- The files of the functions in sysfs. -/
abbrev PciSysfs := DeviceId → PciAttr → Except Int (List Char)

/-- `%x` with a field width, which leading blanks do not count for. -/
def scanHexWidth (width : ℕ) (text : List Char) : Option (List Char) := do
  let body := text.dropWhile isSpace
  let (_, rest) ← scanHex (body.take width)
  return rest ++ body.drop width

/-- `"%4x:%2x:%2x.%1x%c"` is to match all but the last. -/
def pciIdValid (id : DeviceId) : Bool :=
  let scanned : Option (List Char) := do
    let rest ← scanLiteral [':'] (← scanHexWidth 4 id)
    let rest ← scanLiteral [':'] (← scanHexWidth 2 rest)
    let rest ← scanLiteral ['.'] (← scanHexWidth 2 rest)
    scanHexWidth 1 rest
  id.length = 12 && scanned = some []

def readHexAttr (sysfs : PciSysfs) (id : DeviceId) (attr : PciAttr) : Except Int UInt32 := do
  let (n, rest) := strtoullHex (cString (fileString (← sysfs id attr)))
  if rest ≠ [] then .error (-EINVAL) else .ok (.ofNat n)

/-- Behind no VT-d unit, the function has no such file. -/
def readIommu (sysfs : PciSysfs) (id : DeviceId) : UInt64 :=
  match sysfs id .iommu with
  | .error _ => 0
  | .ok bytes =>
      let (n, rest) := strtoullHex (cString (fileString bytes))
      if rest ≠ [] then 0 else .ofNat n

def pciReadIds (sysfs : PciSysfs) (id : DeviceId) : Except Int PciIds := do
  if !pciIdValid id then .error (-EINVAL)
  else
    return {
      id := id.take (PCI_ID_SIZE - 1)
      vendor := ← readHexAttr sysfs id .vendor
      device := ← readHexAttr sysfs id .device
      classCode := ← readHexAttr sysfs id .classCode
      iommu := readIommu sysfs id
    }

end Pci

end Kmorph
