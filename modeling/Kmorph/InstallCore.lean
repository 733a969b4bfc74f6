import Kmorph.CollectCore
import Kmorph.LifecycleCore

/-!
Executable model of `kmorph init`: the image of the successor, `kmorph/image.c`, and
the loops of `lib/file.c` that read and write whole files. A call that never returns
is `none`. What the disk goes through is followed from call to call.
-/

namespace Kmorph

def ENAMETOOLONG : Int := 36
def PATH_MAX : ℕ := 4096

namespace Files

/-! `file_read` -/

section Read

/-- A read of a file that has not ended takes a byte at least: `got n` takes up to `n + 1`. -/
inductive ReadAnswer
  | got (n : ℕ)
  | interrupted
  | failed (errno : Int) (nonzero : errno ≠ 0)
deriving Repr

/-- The bytes so far, of which `used` counts; what `cap` says; the size of the block, and whether a byte
was written behind it. -/
structure ReadBuffer where
  data : List UInt8
  cap : ℕ
  block : ℕ
  overrun : Bool
deriving Repr, DecidableEq

def ReadBuffer.grow (granted : ℕ → Bool) (b : ReadBuffer) : Option ReadBuffer :=
  if b.data.length = b.cap then
    let block := (b.cap * 2 + 1) % 2 ^ 64
    if granted block then some { b with cap := b.cap * 2 % 2 ^ 64, block := block } else none
  else some b

def ReadBuffer.put (b : ReadBuffer) (bytes : List UInt8) : ReadBuffer :=
  { b with
    data := b.data ++ bytes
    overrun := b.overrun || b.block < b.data.length + bytes.length }

/-- `data[used] = '\0'` -/
def ReadBuffer.terminate (b : ReadBuffer) : ReadBuffer :=
  { b with overrun := b.overrun || b.block ≤ b.data.length }

/-- What `read` gives: from the file, no more than there is room for. -/
def ReadBuffer.chunk (content : List UInt8) (b : ReadBuffer) (n : ℕ) : List UInt8 :=
  (content.drop b.data.length).take (min (n + 1) (b.cap - b.data.length))

/-- What the loop of `file_read` comes to, and the block at its end. -/
def readLoop (content : List UInt8) (granted : ℕ → Bool) (answers : List ReadAnswer) (b : ReadBuffer) :
    Option (Int × ReadBuffer) :=
  match b.grow granted with
  | none => some (-ENOMEM, b)
  | some b =>
      match answers with
      | [] => none
      | .failed errno _ :: _ => some (-errno, b)
      | .interrupted :: answers => readLoop content granted answers b
      | .got n :: answers =>
          if b.chunk content n = [] then some (0, b.terminate)
          else readLoop content granted answers (b.put (b.chunk content n))

/-- The result and the block, which is freed if it is not 0; `opened` is 0 or what `open` fails with. -/
def fileRead (opened : Int) (granted : ℕ → Bool) (answers : List ReadAnswer) (content : List UInt8) :
    Option (Int × ReadBuffer) :=
  if opened ≠ 0 then some (opened, ⟨[], 0, 0, false⟩)
  else if granted 4097 then readLoop content granted answers ⟨[], 4096, 4097, false⟩
  else some (-ENOMEM, ⟨[], 0, 0, false⟩)

end Read

end Files

/-! The disk. -/

section Disk

abbrev FilePath := List Char

structure Disk where
  files : FilePath → Option (List UInt8)
  directories : List FilePath

def Disk.set (d : Disk) (path : FilePath) (content : Option (List UInt8)) : Disk :=
  { d with files := fun other => if other = path then content else d.files other }

/-- The disk now and at each moment before, the latest first. -/
structure DiskRun where
  now : Disk
  before : List Disk

def DiskRun.step (r : DiskRun) (d : Disk) : DiskRun := ⟨d, r.now :: r.before⟩

def DiskRun.moments (r : DiskRun) : List Disk := r.now :: r.before

end Disk

/-- How the calls that install an image are answered. -/
structure InstallEnv where
  mkdir : FilePath → Answer
  opened : Answer
  writes : List WriteAnswer
  renamed : Answer
  unlinked : Answer

namespace Files

/-- The loop of `file_write`, with what is left to write. -/
def writeLoop (path : FilePath) : List WriteAnswer → DiskRun → List UInt8 → Option (Int × DiskRun)
  | _, r, [] => some (0, r)
  | [], _, _ :: _ => none
  | .wrote n :: answers, r, b :: buf =>
      writeLoop path answers (r.step (r.now.set path (some ((r.now.files path).getD [] ++ (b :: buf).take n))))
        ((b :: buf).drop n)
  | .interrupted :: answers, r, b :: buf => writeLoop path answers r (b :: buf)
  | .failed errno _ :: _, r, _ :: _ => some (-errno, r)

def fileWrite (env : InstallEnv) (path : FilePath) (buf : List UInt8) (r : DiskRun) : Option (Int × DiskRun) :=
  if env.opened.ret ≠ 0 then some (env.opened.ret, r)
  else writeLoop path env.writes (r.step (r.now.set path (some []))) buf

end Files

section Image

/-- The loop over the directories above, with what it has passed of the path. -/
def mkdirEach (env : InstallEnv) (passed : FilePath) : FilePath → DiskRun → Int × DiskRun
  | [], r => (0, r)
  | c :: rest, r =>
      if c = '/' ∧ passed ≠ [] then
        let ret := (env.mkdir passed).ret
        if ret ≠ 0 ∧ ret ≠ -EEXIST then (ret, r)
        else
          mkdirEach env (passed ++ [c]) rest
            (if ret = 0 then r.step { r.now with directories := passed :: r.now.directories } else r)
      else mkdirEach env (passed ++ [c]) rest r

def mkdirParents (env : InstallEnv) (path : FilePath) (r : DiskRun) : Int × DiskRun :=
  if path.length ≥ PATH_MAX then (-ENAMETOOLONG, r) else mkdirEach env [] path r

def tmpPath (path : FilePath) : FilePath := path ++ ".tmp".toList

def renameFile (answer : Answer) (source dest : FilePath) (r : DiskRun) : Int × DiskRun :=
  if answer.ret ≠ 0 then (answer.ret, r)
  else (0, r.step ((r.now.set dest (r.now.files source)).set source none))

def unlinkFile (answer : Answer) (path : FilePath) (r : DiskRun) : DiskRun :=
  if answer.ret ≠ 0 then r else r.step (r.now.set path none)

def imageWrite (env : InstallEnv) (image : List UInt8) (path : FilePath) (r : DiskRun) : Option (Int × DiskRun) :=
  let (ret, r) := mkdirParents env path r
  if ret ≠ 0 then some (ret, r)
  else if (tmpPath path).length ≥ PATH_MAX then some (-ENAMETOOLONG, r)
  else do
    let (ret, r) ← Files.fileWrite env (tmpPath path) image r
    let (ret, r) := if ret = 0 then renameFile env.renamed (tmpPath path) path r else (ret, r)
    return (ret, if ret ≠ 0 then unlinkFile env.unlinked (tmpPath path) r else r)

/-- The files as `file_read` returns them, or what it fails with. -/
structure SourceFiles where
  read : FilePath → Except Int (List UInt8)
  errno : ∀ {path ret}, read path = .error ret → ret < 0

/-- The image has no libc: only what needs no interpreter goes in. -/
def addStatic (granted : ℕ → Bool) (files : SourceFiles) (source dest : FilePath) (c : Cpio) :
    Option (Int × Cpio) :=
  match files.read source with
  | .error ret => some (ret, c)
  | .ok elf =>
      (elfNeedsInterp elf).bind fun needs =>
        if needs ≠ 0 then some (-EINVAL, c) else Cpio.addFile granted c (textBytes dest) elf 0o755

def imageBuild (granted : ℕ → Bool) (files : SourceFiles) (cfg : KmorphConfig)
    (kmorphd : FilePath) (out : Cpio) : Option (Int × Cpio) :=
  Cpio.andThen (Cpio.andThen (addStatic granted files kmorphd "init".toList out) fun c =>
    if cfg.console.isSome then addStatic granted files (cfg.consoleLogin.getD []) (cfg.consoleLogin.getD []) c
    else some (0, c)) (Cpio.finish granted)

end Image

section Init

/-- `KMORPHD_PATH` of a default build. -/
def KMORPHD_PATH : FilePath := "/usr/local/bin/kmorphd".toList

/-- The path of this program, unless it cannot be read; `len` is the size of the buffer. -/
def kmorphdPath (exe : Option FilePath) (len : ℕ) : FilePath :=
  match exe with
  | none => KMORPHD_PATH
  | some exe =>
      let exe := exe.take (PATH_MAX - 1)
      if '/' ∈ exe then
        let dir := (exe.reverse.dropWhile (· ≠ '/')).tail.reverse
        if dir.length + 9 > len then KMORPHD_PATH else dir ++ "/kmorphd".toList
      else KMORPHD_PATH

def initRun (granted : ℕ → Bool) (files : SourceFiles) (env : InstallEnv)
    (exe : Option FilePath) (cfg : KmorphConfig) (r : DiskRun) : Option (Int × DiskRun) := do
  let (ret, image) ← imageBuild granted files cfg (kmorphdPath exe PATH_MAX) CPIO_INIT
  if ret ≠ 0 then return (ret, r)
  imageWrite env image.data KMORPH_INITRD_PATH r

end Init

end Kmorph
