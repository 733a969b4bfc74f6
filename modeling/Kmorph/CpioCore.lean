import Kmorph.Libc
import Kmorph.Newc

/-!
Executable model of `lib/cpio.c`, which builds a newc archive in a block that
grows. A call that never returns is `none`. The block and the writes beyond it
are followed beside what the source keeps.
-/

namespace Kmorph

def EFBIG : Int := 27

/-- The bytes so far, of which `len` counts; what `cap` says; the size of the block that `realloc`
returned last, and whether a byte was written behind it. -/
structure Cpio where
  data : List UInt8
  cap : ℕ
  ino : UInt32
  block : ℕ
  overrun : Bool
deriving Repr, DecidableEq

def CPIO_INIT : Cpio := ⟨[], 0, 1, 0, false⟩

namespace Cpio

/-- `if (ret) return ret;` -/
def andThen (result : Option (Int × Cpio)) (rest : Cpio → Option (Int × Cpio)) : Option (Int × Cpio) :=
  match result with
  | none => none
  | some (ret, c) => if ret ≠ 0 then some (ret, c) else rest c

/-- `while (c->cap < need)`. The size of a block is below 2 ^ 64, a capacity that has become zero by
doubling starts anew, so that 66 turns do not end only if none do. -/
def growCap (need : ℕ) : ℕ → ℕ → Option ℕ
  | 0, _ => none
  | turns + 1, cap =>
      if cap < need then growCap need turns (if cap ≠ 0 then 2 * cap % 2 ^ 64 else 4096) else some cap

/-- The capacity is raised before the block is there. -/
def reserve (granted : ℕ → Bool) (c : Cpio) (more : ℕ) : Option (Int × Cpio) :=
  let need := (c.data.length + more) % 2 ^ 64
  if need ≤ c.cap then some (0, c)
  else
    (growCap need 66 c.cap).map fun cap =>
      if granted cap then (0, { c with cap := cap, block := cap }) else (-ENOMEM, { c with cap := cap })

def put (bytes : List UInt8) (c : Cpio) : Cpio :=
  { c with
    data := c.data ++ bytes
    overrun := c.overrun || (bytes ≠ [] && c.block < c.data.length + bytes.length) }

def pad4 (c : Cpio) : Cpio :=
  if c.data.length % 4 ≠ 0 then pad4 (c.put [0]) else c
termination_by (4 - c.data.length % 4) % 4
decreasing_by
  simp only [put, List.length_append, List.length_singleton]
  omega

def NEWC_HEADER : ℕ := 110
def UINT32_MAX : ℕ := 2 ^ 32 - 1
def S_IFDIR : UInt32 := 0o040000
def S_IFREG : UInt32 := 0o100000

def entry (granted : ℕ → Bool) (c : Cpio) (name : List UInt8) (mode : UInt32) (data : List UInt8) :
    Option (Int × Cpio) :=
  let namesize := name.length + 1
  if data.length > UINT32_MAX then some (-EFBIG, c)
  else
    andThen (reserve granted c (NEWC_HEADER + namesize + data.length + 8)) fun c =>
      let hdr := Newc.MAGIC ++ Hexadecimal.encodeFields 8
        [c.ino.toNat, mode.toNat, 0, 0, 1, 0, data.length % 2 ^ 32, 0, 0, 0, 0, namesize % 2 ^ 32, 0]
      let c := { c.put hdr with ino := c.ino + 1 }
      let c := (c.put (name ++ [0])).pad4
      some (0, (c.put data).pad4)

/-- `/` -/
def SLASH : UInt8 := 47

/-- The loop over the ancestors, with what it has passed of the path. -/
def addAncestors (granted : ℕ → Bool) (c : Cpio) (passed : List UInt8) :
    List UInt8 → Option (Int × Cpio)
  | [] => some (0, c)
  | b :: rest =>
      if b = SLASH then
        andThen (entry granted c passed (S_IFDIR ||| 0o755) []) fun c =>
          addAncestors granted c (passed ++ [b]) rest
      else addAncestors granted c (passed ++ [b]) rest

def addFile (granted : ℕ → Bool) (c : Cpio) (path data : List UInt8) (mode : UInt32) :
    Option (Int × Cpio) :=
  let path := path.dropWhile (· = SLASH)
  if path = [] ∨ path.length ≥ 256 then some (-EINVAL, c)
  else
    andThen (addAncestors granted c [] path) fun c =>
      entry granted c path (S_IFREG ||| (mode &&& 0o7777)) data

def finish (granted : ℕ → Bool) (c : Cpio) : Option (Int × Cpio) :=
  entry granted c Newc.TRAILER 0 []

/-- A file as it is given to `cpio_add_file`. -/
structure File where
  path : List UInt8
  data : List UInt8
  mode : UInt32
deriving Repr, DecidableEq

def addFiles (granted : ℕ → Bool) (c : Cpio) : List File → Option (Int × Cpio)
  | [] => some (0, c)
  | f :: files =>
      andThen (addFile granted c f.path f.data f.mode) fun c => addFiles granted c files

/-- An archive of files that is finished, unless a call failed. -/
def archive (granted : ℕ → Bool) (files : List File) : Option (Int × Cpio) :=
  andThen (addFiles granted CPIO_INIT files) (finish granted)

end Cpio

end Kmorph
