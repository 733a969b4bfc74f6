import Kmorph.HostTreeCore
import Kmorph.OpsCore

/-!
The next pool as `kmorph arm` builds it: the claim file of `lib/memblock.c`,
`dt_build_pool_baseline` of `lib/dt.c` and `init_pool` of `kmorph/arm.c`. Memory
allocation for the devices succeeds.
-/

namespace Kmorph

def scanClaim (text : List Char) : Option Range := do
  let (base, rest) ← scanHex text
  let (size, _) ← scanHex rest
  return ⟨.ofNat base, .ofNat size⟩

def poolClaimRead (file : Except Int (List Char)) : Except Int Range :=
  match file with
  | .error errno => .error errno
  | .ok bytes =>
      match scanClaim (cString (fileString bytes)) with
      | none => .error (-EINVAL)
      | some r => if r.size = 0 then .error (-EINVAL) else .ok r

/-- A configuration `arm` accepts: it refuses one without CPUs. -/
structure PoolConfig where
  cpus : List UInt64
  memory : UInt64
  devices : List DeviceId
  console : Bool
  someCpu : cpus ≠ []

def consolePlatformDevices (cfg : PoolConfig) : List Name :=
  if cfg.console then ["serial8250".toList] else []

structure PoolArgs where
  cpus : List UInt64
  memoryBytes : UInt64
  claim : Option Range
  devices : List PciIds
  platformDevices : List Name

/-- `emit_pci_device_nodes` for a baseline, which leaves out the class and the IOMMU. -/
def emitBaselineDeviceNode (d : PciIds) : Name × Node :=
  (pciNodeName d.id, .mk
    [("device-type".toList, stringBytes "pci".toList), ("pci-id".toList, stringBytes d.id),
      ("vendor-id".toList, cpuToFdt32 d.vendor), ("device-id".toList, cpuToFdt32 d.device)]
    [])

def emitPlatformDeviceNode (name : Name) : Name × Node :=
  (name, .mk [("device-type".toList, stringBytes "platform".toList),
    ("device-name".toList, stringBytes name)] [])

def claimedMemory (claim : Range) : Name × Node :=
  ("memory@0".toList, .mk [("device_type".toList, stringBytes "memory".toList),
    fdtutilPropReg claim.base claim.size] [])

def grownMemory (name : String) (grow : UInt64) : Name × Node :=
  (name.toList, .mk [("device_type".toList, stringBytes "memory".toList),
    ("size".toList, cpuToFdt64 grow)] [])

def poolGrow (a : PoolArgs) : UInt64 :=
  match a.claim with
  | none => a.memoryBytes
  | some claim => if a.memoryBytes > claim.size then a.memoryBytes - claim.size else 0

def buildPoolBaseline (a : PoolArgs) : Node :=
  let grow := poolGrow a
  .mk [] [("resources".toList, .mk [fdtutilPropCpulist "cpus".toList a.cpus]
    (a.claim.toList.map claimedMemory ++
      (if grow ≠ 0 then [grownMemory (if a.claim.isSome then "memory@1" else "memory@0") grow]
        else []) ++
      if a.devices ≠ [] ∨ a.platformDevices ≠ [] then
        [("devices".toList, .mk [] (a.devices.map emitBaselineDeviceNode ++
          a.platformDevices.map emitPlatformDeviceNode))]
      else []))]

def dtBuildPoolBaseline (built : Int) (a : PoolArgs) : Except Int Node :=
  if a.cpus = [] ∨ a.memoryBytes = 0 ∨ a.claim.any (·.size = 0) then .error (-EINVAL)
  else if built ≠ 0 then .error built
  else .ok (buildPoolBaseline a)

/-- What libfdt and the kernel answer to one baseline. -/
structure BaselineAnswer where
  built : Int
  written : Int

/-- The baselines handed to the kernel, in order, and whether the claim file is gone. -/
structure PoolRun where
  ret : Int
  baselines : List Node
  unlinked : Bool

def writeBaseline (a : BaselineAnswer) (args : PoolArgs) : Int × List Node :=
  match dtBuildPoolBaseline a.built args with
  | .error errno => (errno, [])
  | .ok dtb => (a.written, [dtb])

def MEMORY_BLOCK_SIZE_FALLBACK : UInt64 := (128 : UInt64) <<< 20

/-- What `init_pool` meets: the granule, the devices, the claim file if a path to it is set, and
the answers to the claimed baseline and to the one without a claim. -/
structure PoolAnswers where
  published : Int × UInt64
  blockSize : Int × UInt64
  readIds : DeviceId → Except Int PciIds
  claimFile : Option (Except Int (List Char))
  claimed : BaselineAnswer
  plain : BaselineAnswer

def PoolAnswers.granule (a : PoolAnswers) : UInt64 :=
  let granule := memoryGranule a.published a.blockSize
  if granule.1 ≠ 0 then MEMORY_BLOCK_SIZE_FALLBACK else granule.2

def PoolAnswers.claim (a : PoolAnswers) : Option Range :=
  match a.claimFile with
  | none => none
  | some file => (poolClaimRead file).toOption

def initPool (cfg : PoolConfig) (a : PoolAnswers) : PoolRun :=
  let poolBytes := cfg.memory + a.granule
  match cfg.devices.mapM a.readIds with
  | .error errno => ⟨errno, [], false⟩
  | .ok devices =>
      let args := fun claim => PoolArgs.mk cfg.cpus poolBytes claim devices (consolePlatformDevices cfg)
      match a.claim with
      | none =>
          let plain := writeBaseline a.plain (args none)
          ⟨plain.1, plain.2, false⟩
      | some claim =>
          let claimed := writeBaseline a.claimed (args (some claim))
          if claimed.1 = 0 then ⟨0, claimed.2, true⟩
          else
            let plain := writeBaseline a.plain (args none)
            ⟨plain.1, claimed.2 ++ plain.2, true⟩

end Kmorph
