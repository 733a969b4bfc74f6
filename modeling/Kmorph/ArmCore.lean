import Kmorph.CpioCore
import Kmorph.DumpCore
import Kmorph.WatchCore

/-!
Executable model of what `kmorph arm` prepares for the successor, from
`kmorph/arm.c`: the devices of the config, the network identity, and the initrd
that the config and the identity are appended to.
-/

namespace Kmorph

/-- An address is taken as it stands. -/
def resolveDevice (fs : Sysfs) (name : List Char) : Except Int (List Char) :=
  if devnameIsPciId name then .ok name else devnameResolve fs name 16

/-- The loop of `resolve_devices`; `strdup` of the `i`-th name is allocation `i + 1`. -/
def resolveLoop (fs : Sysfs) (granted : ℕ → Bool) :
    List (List Char) → List (List Char) → Except Int (List (List Char))
  | [], out => .ok out
  | name :: rest, out => do
      let name ← resolveDevice fs name
      if granted (out.length + 1) then resolveLoop fs granted rest (out ++ [name])
      else .error (-ENOMEM)

/-- Names from sysfs become the PCI addresses the kernel wants. -/
def resolveDevices (fs : Sysfs) (granted : ℕ → Bool) (devices : List (List Char)) :
    Except Int (List (List Char)) :=
  if granted 0 then resolveLoop fs granted devices [] else .error (-ENOMEM)

def netSnapshot (inet : Inet) (m : NetMachine) (skip : List (List Char)) (duplicated : Bool) :
    Except Int (ℕ × List Char) := do
  let (links, text) ← netsnapText inet m skip NETSNAP_TEXT_MAX
  if duplicated then return (links, text) else .error (-ENOMEM)

namespace Arm

/-- `write_all` of `arm.c`; that of `dump.c` gives up when nothing was written. -/
def writeAll : List WriteAnswer → List UInt8 → List UInt8 → Option (Int × List UInt8 × List WriteAnswer)
  | answers, file, [] => some (0, file, answers)
  | [], _, _ :: _ => none
  | .wrote n :: answers, file, b :: buf =>
      writeAll answers (file ++ (b :: buf).take n) ((b :: buf).drop n)
  | .interrupted :: answers, file, b :: buf => writeAll answers file (b :: buf)
  | .failed errno _ :: answers, file, _ :: _ => some (-errno, file, answers)

/-- Calls of `write_all` up to the first that fails. -/
def writeParts : List (List UInt8) → List WriteAnswer → List UInt8 → Option (Int × List UInt8)
  | [], _, file => some (0, file)
  | part :: parts, answers, file => do
      let (ret, file, answers) ← writeAll answers file part
      if ret ≠ 0 then return (ret, file)
      writeParts parts answers file

end Arm

def textBytes (text : List Char) : List UInt8 := text.map fun c => UInt8.ofNat c.toNat

def KMORPH_CONFIG_PATH : List UInt8 := textBytes "/etc/kmorph/kmorph.conf".toList
def NETSNAP_PATH : List UInt8 := textBytes "/etc/kmorph/network".toList

/-- What `net_snapshot` returns if there is such a hook. -/
abbrev Snapshot := Option (Except Int (ℕ × List Char))

/-- Without an identity the successor gets none. -/
def addNetwork (granted : ℕ → Bool) (snapshot : Snapshot) (extra : Cpio) : Option (Int × Cpio) :=
  match snapshot with
  | some (.ok (_, text)) => Cpio.addFile granted extra NETSNAP_PATH (textBytes text) 0o644
  | some (.error _) | none => some (0, extra)

/-- `(4 - (len & 3)) & 3` zeros -/
def initrdZeros (len : ℕ) : List UInt8 := List.replicate ((4 - len % 4) % 4) 0

def initrdArchive (granted : ℕ → Bool) (text : List UInt8) (snapshot : Snapshot) :
    Option (Int × Cpio) :=
  Cpio.andThen (Cpio.andThen (Cpio.addFile granted CPIO_INIT KMORPH_CONFIG_PATH text 0o644)
    (addNetwork granted snapshot)) (Cpio.finish granted)

/-- The result, and what the file in memory then holds. The image is that of `file_read`, `memfd`
what `memfd_create` returns. -/
def successorInitrd (granted : ℕ → Bool) (image : Except Int (List UInt8)) (text : List UInt8)
    (snapshot : Snapshot) (memfd : Int) (answers : List WriteAnswer) : Option (Int × List UInt8) :=
  match image with
  | .error ret => some (ret, [])
  | .ok image => do
      let (ret, extra) ← initrdArchive granted text snapshot
      if ret ≠ 0 then return (ret, [])
      if memfd < 0 then return (memfd, [])
      let (ret, file) ← Arm.writeParts [image, initrdZeros image.length, extra.data] answers []
      if ret ≠ 0 then return (ret, file)
      return (memfd, file)

end Kmorph
