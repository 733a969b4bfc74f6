import Kmorph.DtCore
import Kmorph.MachineCore

/-!
Executable model of `lib/mkfs.c` and `lib/mksys.c`. What the kernel makes of a call is
not theirs: each call is logged with what it is answered, and the filesystem is what
it reads as at that time.
-/

namespace Kmorph

def NAME_MAX : ℕ := 255

/-- 0, or `-errno`. -/
structure Answer where
  ret : Int
  errno : ret ≤ 0

def Answer.granted : Answer := ⟨0, by decide⟩

/-! `lib/mksys.c` -/

section Mksys

inductive RebootCmd
  | exec
  | halt
deriving DecidableEq

def MK_KEXEC_FILE_UNLOAD : UInt64 := 0x00000001
def MK_KEXEC_FILE_NO_INITRAMFS : UInt64 := 0x00000004
def MK_KEXEC_FILE_MK_ID_MASK : UInt64 := 0x7fff0000
def MK_KEXEC_FILE_MK_ID_SHIFT : UInt64 := 16
def MK_KEXEC_FILE_MULTIKERNEL : UInt64 := 0x80000000

def mksysKexecFlags (mkId : Int) (hasInitrd : Bool) : UInt64 :=
  let flags := MK_KEXEC_FILE_MULTIKERNEL |||
    ((UInt64.ofInt mkId <<< MK_KEXEC_FILE_MK_ID_SHIFT) &&& MK_KEXEC_FILE_MK_ID_MASK)
  if hasInitrd then flags else flags ||| MK_KEXEC_FILE_NO_INITRAMFS

def mksysKexecUnloadFlags (mkId : Int) : UInt64 := mksysKexecFlags mkId true ||| MK_KEXEC_FILE_UNLOAD

/-- What `kexec_file_load` is given. -/
structure SuccessorImage where
  kernel : List Char
  initrd : List UInt8
  cmdline : Option (List Char)
deriving DecidableEq

/-- The calls of the two libraries that `kmorph arm` and `kmorph disarm` make, each with its result. -/
inductive KernelCall
  | writeBaseline (tree : Node)
  | applyOverlay (tree : Node) (ret : Int)
  | instanceId (name : Name) (id : Except Int UInt32)
  | instanceStatus (name : Name) (status : Except Int (List Char))
  | kexecFileLoad (image : Option SuccessorImage) (flags : UInt64) (ret : Int)
  | reboot (cmd : RebootCmd) (mkId : Int) (ret : Int)

/-- The initrd is always there. -/
def mksysKexecLoad (image : SuccessorImage) (mkId ret : Int) : KernelCall :=
  .kexecFileLoad (some image) (mksysKexecFlags mkId true) ret

def mksysKexecUnload (mkId ret : Int) : KernelCall := .kexecFileLoad none (mksysKexecUnloadFlags mkId) ret

def mksysExec (mkId ret : Int) : KernelCall := .reboot .exec mkId ret

def mksysHalt (mkId ret : Int) : KernelCall := .reboot .halt mkId ret

end Mksys

/-! `lib/mkfs.c` -/

section Files

/-- What a file reads as, by its path under the root. -/
structure MkfsFiles where
  read : List Char → Except Int (List Char)
  errno : ∀ {path ret}, read path = .error ret → ret < 0

/-- In a buffer of `NAME_MAX + 32` bytes. -/
def instancePath (name : Name) (file : String) : List Char :=
  ("instances/".toList ++ name ++ '/' :: file.toList).take (NAME_MAX + 31)

def mkfsInstanceId (files : MkfsFiles) (name : Name) : Except Int UInt32 :=
  fileReadU32 (files.read (instancePath name "id"))

/-- The status as it fits in a buffer of `len` bytes. -/
def mkfsInstanceStatus (files : MkfsFiles) (name : Name) (len : ℕ) : Except Int (List Char) :=
  (fileReadString (files.read (instancePath name "status"))).map (·.take (len - 1))

def runsBeside (files : MkfsFiles) (name entry : Name) : Bool :=
  if entry.head? = some '.' ∨ entry = name then false
  else
    match mkfsInstanceId files entry with
    | .error _ => false
    | .ok id =>
        if id = 0 then false
        else
          match mkfsInstanceStatus files entry 32 with
          | .error _ => false
          | .ok status => status = "active".toList

/-- The result and `other`, a buffer of `len` bytes. -/
def mkfsOtherRunning (entries : Except Int (List Name)) (files : MkfsFiles) (name : Name) (len : ℕ) :
    Int × Option Name :=
  match entries with
  | .error errno => (errno, none)
  | .ok entries =>
      match entries.find? (runsBeside files name) with
      | none => (0, none)
      | some entry => (1, some (entry.take (len - 1)))

/-- One entry of `overlays`; `latest` is an `int`. -/
def latestTx (latest : Int) (entry : Name) : Int :=
  if "tx_".toList.isPrefixOf entry ∧ (entry.drop 3).head?.any Char.isDigit then
    let id := strtoll (entry.drop 3)
    if id.2 = [] ∧ id.1 > latest then id.1.bmod (2 ^ 32) else latest
  else latest

/-- What `mkfs_apply_overlay` meets: the write to `overlays/new`, the directory `overlays` behind it and
the files under it. -/
structure TxAnswers where
  write : Answer
  entries : Except Int (List Name)
  opened : ∀ {ret}, entries = .error ret → ret < 0
  files : MkfsFiles

def mkfsLatestTx (entries : Except Int (List Name)) : Int :=
  match entries with
  | .error errno => errno
  | .ok entries => entries.foldl latestTx (-1)

def txStatusPath (tx : Int) : List Char := "overlays/tx_".toList ++ formatSigned tx ++ "/status".toList

/-- The result and `tx_id`. -/
def mkfsApplyOverlay (a : TxAnswers) : Int × Int :=
  if a.write.ret ≠ 0 then (a.write.ret, -1)
  else
    let tx := mkfsLatestTx a.entries
    if tx < 0 then (- EIO, -1)
    else
      match fileReadString (a.files.read (txStatusPath tx)) with
      | .error errno => (errno, tx)
      | .ok status => (if status = "applied".toList then 0 else - EIO, tx)

end Files

end Kmorph
