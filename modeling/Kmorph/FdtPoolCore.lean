import Kmorph.FdtCore

/-!
Executable model of what `dt_read_pool` of `lib/dt.c` reads from the bytes of the
root tree, with the readers of `lib/fdtutil.c`. Memory allocation succeeds.
-/

namespace Kmorph.Fdt

theorem nextSubnodeLoop_lt {fdt : List UInt8} {offset depth next : Int}
    (walked : nextSubnodeLoop fdt offset depth = some next) : next < 0 ∨ offset < next ∧ offset ≤ INT_MAX := by
  fun_induction nextSubnodeLoop fdt offset depth with
  | case1 => cases walked
  | case2 =>
      cases walked
      simp only [FDT_ERR_NOTFOUND]
      omega
  | case3 offset depth next' depth' read inside deeper ih =>
      have := fdtNextNode_lt read
      have := ih walked
      omega
  | case4 offset depth next' depth' read inside deeper =>
      have := fdtNextNode_lt read
      cases walked
      omega

/-- The body of `fdt_for_each_subnode`, from a subnode on. -/
def forEachSubnode {σ : Type} (fdt : List UInt8) (body : Int → σ → Option (Except Int σ)) (node : Int) (s : σ) :
    Option (Except Int σ) :=
  if node < 0 then some (.ok s)
  else
    match body node s with
    | none => none
    | some (.error errno) => some (.error errno)
    | some (.ok s) =>
        match _next : fdtNextSubnode fdt node with
        | none => none
        | some next => forEachSubnode fdt body next s
termination_by if node < 0 then 0 else (INT_MAX + 1 - node).toNat + 1
decreasing_by
  have := nextSubnodeLoop_lt _next
  rw [if_neg ‹¬ node < 0›]
  split <;> omega

def fdtForEachSubnode {σ : Type} (fdt : List UInt8) (parent : Int) (s : σ) (body : Int → σ → Option (Except Int σ)) :
    Option (Except Int σ) := do
  forEachSubnode fdt body (← fdtFirstSubnode fdt parent) s

def fdtutilReadReg (fdt : List UInt8) (node : Int) : Option (Except Int (UInt64 × UInt64)) := do
  match ← fdtGetprop fdt node (nameBytes "reg".toList) with
  | .error _ => return .error (-EINVAL)
  | .ok (reg, len) =>
      if len ≠ 16 then return .error (-EINVAL)
      else return .ok (fdt64ToCpu (← load fdt reg 8), fdt64ToCpu (← load fdt (reg + 8) 8))

def fdtutilReadU64 (fdt : List UInt8) (node : Int) (name : String) : Option (Except Int UInt64) := do
  match ← fdtGetprop fdt node (nameBytes name.toList) with
  | .error _ => return .error (-EINVAL)
  | .ok (p, len) =>
      if len ≠ 8 then return .error (-EINVAL)
      else return .ok (fdt64ToCpu (← load fdt p 8))

def fdtutilReadCpulist (fdt : List UInt8) (node : Int) (name : String) : Option (Except Int (List UInt64)) := do
  match ← fdtGetprop fdt node (nameBytes name.toList) with
  | .error _ => return .error (-ENOENT)
  | .ok (p, len) => return fdtutilCellsToCpulist (← load fdt p len.toNat)

def sumChunks (fdt : List UInt8) (resources : Int) : Option (Except Int UInt64) :=
  fdtForEachSubnode fdt resources 0 fun node total => do
    match ← fdtGetName fdt node with
    | .error _ => return .ok total
    | .ok name =>
        if (nameBytes "memory@".toList).isPrefixOf name then
          match ← fdtutilReadReg fdt node with
          | .ok (_, size) => return .ok (total + size)
          | .error _ => return .ok total
        else return .ok total

def sumInstanceMemory (fdt : List UInt8) : Option (Except Int UInt64) := do
  let instances ← fdtPathOffset fdt (nameBytes INSTANCES_PATH.toList)
  if instances < 0 then return .ok 0
  else
    fdtForEachSubnode fdt instances 0 fun node total => do
      let res ← fdtSubnodeOffset fdt node (nameBytes "resources".toList)
      if res < 0 then return .ok total
      else
        match ← fdtutilReadU64 fdt res "memory-bytes" with
        | .ok bytes => return .ok (total + bytes)
        | .error _ => return .ok total

/-- `dom ? fdt32_to_cpu(*dom) : 0`: four bytes, whatever the length of the property. -/
def pciDomain (fdt : List UInt8) (bridge : Int) : Option UInt32 := do
  match ← fdtGetprop fdt bridge (nameBytes "linux,pci-domain".toList) with
  | .error _ => return 0
  | .ok (dom, _) => return fdt32ToCpu (← load fdt dom 4)

/-- The body of the loop of `collect_pci_functions`. -/
def collectPciFunction (fdt : List UInt8) (domain : UInt32) (node : Int) (out : List DeviceId) :
    Option (Except Int (List DeviceId)) := do
  match ← fdtGetprop fdt node (nameBytes "vendor-id".toList) with
  | .error _ => return .ok out
  | .ok _ =>
      match ← fdtGetprop fdt node (nameBytes "reg".toList) with
      | .error _ => return .error (-EINVAL)
      | .ok (reg, len) =>
          if len < 4 then return .error (-EINVAL)
          else
            let hi := fdt32ToCpu (← load fdt reg 4)
            return .ok (out ++ [formatFunction (regFunction domain hi)])

def collectPciFunctions (fdt : List UInt8) (bridge : Int) (out : List DeviceId) :
    Option (Except Int (List DeviceId)) := do
  let domain ← pciDomain fdt bridge
  fdtForEachSubnode fdt bridge out (collectPciFunction fdt domain)

def collectPoolPci (fdt : List UInt8) : Option (Except Int (List DeviceId)) :=
  fdtForEachSubnode fdt 0 [] fun node out => do
    if (← fdtNodeCheckCompatible fdt node (nameBytes PCI_HOST_BRIDGE_COMPATIBLE.toList)) ≠ 0 then return .ok out
    else collectPciFunctions fdt node out

/-- The body of the loop of `collect_platform_devices`. -/
def collectPlatformDevice (fdt : List UInt8) (node : Int) (out : List Name) : Option (Except Int (List Name)) := do
  match ← fdtGetprop fdt node (nameBytes "device-type".toList) with
  | .error _ => return .ok out
  | .ok (type, _) =>
      if (← loadString fdt type) ≠ nameBytes "platform".toList then return .ok out
      else
        match ← fdtGetprop fdt node (nameBytes "device-name".toList) with
        | .ok (name, _) => return .ok (out ++ [bytesName (← loadString fdt name)])
        | .error _ =>
            match ← fdtGetName fdt node with
            | .ok name => return .ok (out ++ [bytesName name])
            -- `strdup` of a null pointer.
            | .error _ => none

def collectPlatformDevices (fdt : List UInt8) (resources : Int) : Option (Except Int (List Name)) := do
  let devices ← fdtSubnodeOffset fdt resources (nameBytes "devices".toList)
  if devices < 0 then return .ok []
  else fdtForEachSubnode fdt devices [] (collectPlatformDevice fdt)

def dtReadPool (fdt : List UInt8) : Option (Except Int PoolView) := do
  if fdtutilCheck fdt ≠ 0 then return .error (-EINVAL)
  let resources ← fdtPathOffset fdt (nameBytes "/resources".toList)
  if resources < 0 then return .error (-ENOENT)
  match ← fdtutilReadCpulist fdt resources "cpus-available" with
  | .error errno => if errno = -ENOENT then readChunks fdt resources [] else return .error errno
  | .ok freeCpus => readChunks fdt resources freeCpus
where
  readChunks (fdt : List UInt8) (resources : Int) (freeCpus : List UInt64) : Option (Except Int PoolView) := do
    match ← sumChunks fdt resources with
    | .error errno => return .error errno
    | .ok totalBytes =>
        -- A kernel with no pool still describes itself here; chunks mean a pool.
        if totalBytes = 0 then return .error (-ENOENT)
        else
          match ← sumInstanceMemory fdt with
          | .error errno => return .error errno
          | .ok used =>
              match ← collectPoolPci fdt with
              | .error errno => return .error errno
              | .ok devices =>
                  match ← collectPlatformDevices fdt resources with
                  | .error errno => return .error errno
                  | .ok platformDevices =>
                      return .ok {
                        freeCpus
                        totalBytes
                        freeBytes := if used < totalBytes then totalBytes - used else 0
                        devices
                        platformDevices
                      }

end Kmorph.Fdt
