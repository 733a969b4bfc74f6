import Kmorph.FdtWriterCore

/-!
Executable model of the blobs of `lib/dt.c` that `kmorph` and `kmorphd` hand to the
kernel, as trees and as the bytes that `fdtutil_build` makes of them.
-/

namespace Kmorph

/-- The node that a path leads to. -/
def nodeAt (node : Node) : List String → Option Node
  | [] => some node
  | wanted :: path => (fdtSubnode node wanted).bind fun child => nodeAt child path

def DT_MEM_NORMAL : UInt32 := 0x01

/-- What `overlay_begin` and `overlay_end` put around the nodes of an overlay. -/
def overlayTree (target : List Char) (nodes : List (Name × Node)) : Node :=
  .mk [overlayCompatible]
    [("fragment@0".toList, .mk [("target-path".toList, stringBytes target)] [("__overlay__".toList, .mk [] nodes)])]

def buildInstanceRemove (name : List Char) : Node :=
  overlayTree INSTANCES_PATH.toList
    [("instance-remove".toList, .mk [("instance-name".toList, stringBytes name)] [])]

def emitCpuAdd (cpus : List UInt64) : Name × Node :=
  ("cpu-add".toList, .mk [] (cpus.map fun id =>
    ("cpu@".toList ++ formatUnsigned id.toNat, .mk [("reg".toList, cpuToFdt64 id)] [])))

def emitMemoryAdd (memory : List Range) : Name × Node :=
  ("memory-add".toList, .mk [] (memory.zipIdx.map fun (r, i) =>
    ("memory@".toList ++ formatUnsigned i,
      .mk [fdtutilPropReg r.base r.size, ("mem-type".toList, cpuToFdt32 DT_MEM_NORMAL)] [])))

def buildAdopt (name : List Char) (cpus : List UInt64) (memory : List Range) : Node :=
  overlayTree (instanceTarget name)
    ((if cpus ≠ [] then [emitCpuAdd cpus] else []) ++ if memory ≠ [] then [emitMemoryAdd memory] else [])

def buildAdoptDevice (name : List Char) (id : DeviceId) : Node :=
  .mk [overlayCompatible] [emitDeviceAdd 0 (instanceTarget name) [id]]

def buildIommuAdd (name : List Char) (base : UInt64) : Node :=
  overlayTree (instanceTarget name)
    [("iommu-add".toList, .mk [] [("dmar@0".toList, .mk [("reg".toList, cpuToFdt64 base)] [])])]

/-- The resources of the predecessor by physical CPU id and explicit `reg`. -/
def buildForeignBaseline (t : Takeable) : Node :=
  .mk [] [("resources".toList, .mk [fdtutilPropCpulist "cpus".toList t.cpus]
    (t.memory.r.zipIdx.map fun (r, i) =>
      ("memory@".toList ++ formatUnsigned i,
        .mk [("device_type".toList, stringBytes "memory".toList), fdtutilPropReg r.base r.size] [])))]

def Overlay.tree : Overlay → Node
  | .adopt name cpus memory => buildAdopt name.toList cpus memory
  | .deviceAdd name id => buildAdoptDevice name.toList id
  | .iommuAdd name base => buildIommuAdd name.toList base

/-- The blobs, by their builders. -/
inductive DtRequest
  | instanceCreate (a : InstanceArgs)
  | instanceRemove (name : List Char)
  | overlay (o : Overlay)
  | poolBaseline (a : PoolArgs)
  | poolDeviceAdd (devices : List DeviceId)
  | foreignBaseline (t : Takeable)

/-- The tree a builder emits, or `-EINVAL` where it refuses its arguments. -/
def DtRequest.tree : DtRequest → Except Int Node
  | .instanceCreate a =>
      if a.cpus = [] ∨ a.memoryBytes = 0 then .error (-EINVAL) else buildInstanceCreate a
  | .instanceRemove name => .ok (buildInstanceRemove name)
  | .overlay o =>
      match o with
      | .adopt _ cpus memory => if cpus = [] ∧ memory = [] then .error (-EINVAL) else .ok o.tree
      | .deviceAdd _ _ | .iommuAdd _ _ => .ok o.tree
  | .poolBaseline a =>
      if a.cpus = [] ∨ a.memoryBytes = 0 ∨ a.claim.any (·.size = 0) then .error (-EINVAL)
      else .ok (buildPoolBaseline a)
  | .poolDeviceAdd devices => if devices = [] then .error (-EINVAL) else .ok (buildPoolDeviceAdd devices)
  | .foreignBaseline t =>
      if t.cpus = [] ∨ t.memory.r = [] then .error (-EINVAL) else .ok (buildForeignBaseline t)

/-- The calls of `build_instance_create` up to the host tree. -/
def instanceCreateStart (a : InstanceArgs) : List FdtToken :=
  [.enter [], .item overlayCompatible, .enter "fragment@0".toList,
    .item ("target-path".toList, stringBytes INSTANCES_PATH.toList), .enter "__overlay__".toList,
    .enter "instance-create".toList, .item ("instance-name".toList, stringBytes a.name)] ++
  (instanceResources a).2.tokens (instanceResources a).1 ++
  [.enter "chosen".toList, .enter HOST_TREE_NODE.toList]

/-- What a builder hands to `fdtutil_build`, once it has accepted its arguments. A host tree is only
looked at when it is emitted. -/
def DtRequest.emission (r : DtRequest) : Except Int Fdt.Emission :=
  match r.tree with
  | .ok tree => .ok ⟨tree.tokens [], 0⟩
  | .error errno =>
      match r with
      | .instanceCreate a =>
          if a.cpus = [] ∨ a.memoryBytes = 0 then .error errno else .ok ⟨instanceCreateStart a, errno⟩
      | _ => .error errno

/-- Which calls write a property by `fdtutil_prop_cpulist` or `fdtutil_prop_regs`, from a copy of its
cells: the CPUs of any node and the notes of a host tree. The names are those of the open nodes. -/
def copiesCells : List Name → List FdtToken → List Bool
  | _, [] => []
  | nodes, .enter name :: rest => false :: copiesCells (name :: nodes) rest
  | nodes, .leave :: rest => false :: copiesCells nodes.tail rest
  | nodes, .item prop :: rest =>
      (prop.1 = "cpus".toList || nodes.head? = some "cpu-notes".toList && prop.1 = "reg".toList) ::
        copiesCells nodes rest

/-- The memory a builder meets: `malloc` is only asked for copies. -/
def copyMemory (memory : Fdt.BuildMemory) (calls : List FdtToken) : Fdt.BuildMemory :=
  { memory with cells := fun attempt call => !(copiesCells [] calls).getD call false || memory.cells attempt call }

/-- The bytes a `dt_build_*` returns. -/
def dtBuild (memory : Fdt.BuildMemory) (r : DtRequest) : Option (Except Int (List UInt8)) :=
  match r.emission with
  | .error errno => some (.error errno)
  | .ok e => Fdt.fdtutilBuild (copyMemory memory e.calls) e

end Kmorph
