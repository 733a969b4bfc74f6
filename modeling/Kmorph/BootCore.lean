import Kmorph.DtCore
import Kmorph.MachineCore
import Kmorph.OpsCore
import Kmorph.Ranges

/-!
Executable model of how kmorphd finds out where it runs: `devtree_read_self` and
`devtree_read_iommus` of `lib/devtree.c` and `ops_init` of `kmorphd/ops.c`, over
`/proc/device-tree` as a tree of directories. Memory allocation succeeds.
-/

namespace Kmorph

mutual

/-- A node as a directory of `/proc/device-tree`, where each has its name in a file. -/
def Node.shown (name : Name) : Node → Node
  | .mk props children =>
      .mk (props ++ [("name".toList, stringBytes (name.takeWhile (· ≠ '@')))]) (shownAll children)

def shownAll : List (Name × Node) → List (Name × Node)
  | [] => []
  | (name, node) :: rest => (name, node.shown name) :: shownAll rest

end

section Devtree

/-- A directory by its path. -/
def dirAt (dir : Node) : List String → Option Node
  | [] => some dir
  | name :: path => (dir.children.lookup name.toList).bind fun child => dirAt child path

def readCpulistProp (root : Node) (path : List Name) : Except Int (List UInt64) := do
  fdtutilCellsToCpulist (← fileRead root path)

def readIdProp (root : Node) : Except Int UInt32 := do
  let cell ← fileRead root ["id".toList]
  if cell.length = 4 then .ok (fdt32ToCpu cell) else .error (-EINVAL)

/-- The property need not be there. -/
def readReserved (root : Node) : Except Int Rangeset := do
  match ← readOptional root ["chosen".toList, "multikernel,reserved-memory".toList] with
  | none => .ok rangesetInit
  | some cells =>
      let ranges ← fdtutilCellsToRangelist cells
      let (ret, reserved) := rangesetEach rangesetAdd (fun _ => true) rangesetInit ranges
      if ret ≠ 0 then .error ret else .ok reserved

/-- The id of the instance and the rest of `struct self_info`. -/
def devtreeReadSelf (root : Node) : Except Int (UInt32 × SelfInfo) := do
  let name ← fileReadString ((fileRead root ["model".toList]).map fun bytes => bytes.map fun b => Char.ofNat b.toNat)
  let id ← readIdProp root
  let ownCpus ← readCpulistProp root ["resources".toList, "cpus".toList]
  let reserved ← readReserved root
  return (id, ⟨String.ofList name, ownCpus, reserved⟩)

def iommuNodeFilter (name : Name) : Bool := "iommu@".toList.isPrefixOf name

def readIommuNode (dir : Node) (name : Name) : Except Int Range := do
  let reg ← fileRead dir [name, "reg".toList]
  if reg.length = 16 then .ok ⟨fdt64ToCpu (reg.take 8), fdt64ToCpu (reg.drop 8)⟩ else .error (-EINVAL)

def devtreeReadIommus (root : Node) : Except Int (List Range) :=
  match dirAt root ["chosen", "multikernel,iommus"] with
  | none => .ok []
  | some dir => (scandir dir iommuNodeFilter).mapM (readIommuNode dir)

end Devtree

/-- `host_tree_read` of a directory that need not be there. -/
def readHostTree (root : Node) : Except Int HostTree :=
  match dirAt root ["chosen", HOST_TREE_NODE] with
  | none => .error (-ENOENT)
  | some dir => hostTreeRead dir

/-- All of `ops_init`. -/
def opsInitFrom (env : OpsEnv) (root : Node) (present : DeviceId → Bool) (claimFile : Option Range) :
    Except Int Ops := do
  let self ← devtreeReadSelf root
  let host ← readHostTree root
  let iommus ← devtreeReadIommus root
  return opsInit env self.2 host iommus present claimFile

end Kmorph
