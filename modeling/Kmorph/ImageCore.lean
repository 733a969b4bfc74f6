import Kmorph.DumpCore

/-!
Executable model of what reads ELF headers: `lib/elf.c`, `vmlinux_elf_size` of
`lib/vmlinux.c` and `crashinfo_read_page_offset` of `lib/crashinfo.c`. The first two
read a buffer through pointers; a result is `none` where one of them leaves it.
Numbers are those of `size_t`, so that every sum is cut to 64 bits.
-/

namespace Kmorph

open Records

def ENOEXEC : Int := 8
def PT_INTERP : ℕ := 3

/-- `ELFMAG` and `ELFCLASS64` -/
def ELF64_IDENT : List UInt8 := [0x7f, 0x45, 0x4c, 0x46, 2]

def wrap (n : ℕ) : ℕ := n % 2 ^ 64

/-- The members of an `Elf64_Ehdr` that are used. -/
structure Ehdr where
  ident : List UInt8
  phoff : ℕ
  shoff : ℕ
  phentsize : ℕ
  phnum : ℕ
  shentsize : ℕ
  shnum : ℕ
deriving Repr, DecidableEq

def decodeEhdr (bytes : List UInt8) : Ehdr where
  ident := bytes.take 5
  phoff := field bytes 32 8
  shoff := field bytes 40 8
  phentsize := field bytes 54 2
  phnum := field bytes 56 2
  shentsize := field bytes 58 2
  shnum := field bytes 60 2

def decodePhdr (bytes : List UInt8) : Phdr :=
  let fields := decodeFields [4, 4, 8, 8, 8, 8, 8, 8] bytes
  { type := fields.getD 0 0
    flags := fields.getD 1 0
    offset := fields.getD 2 0
    vaddr := fields.getD 3 0
    paddr := fields.getD 4 0
    filesz := fields.getD 5 0
    memsz := fields.getD 6 0
    align := fields.getD 7 0 }

def readTable : ℕ → List UInt8 → List Phdr
  | 0, _ => []
  | count + 1, bytes => decodePhdr bytes :: readTable count (bytes.drop PHDR_SIZE)

/-- A member of a structure at an offset in the buffer. -/
def readField (buf : List UInt8) (off width : ℕ) : Option ℕ :=
  if off + width ≤ buf.length then some (field buf off width) else none

def readEhdr (buf : List UInt8) : Option Ehdr :=
  if EHDR_SIZE ≤ buf.length then some (decodeEhdr buf) else none

/-- The loop of `vmlinux_elf_size` over the last `left` headers, from index `i` on. -/
def elfSizeLoop (buf : List UInt8) (eh : Ehdr) : ℕ → ℕ → ℕ → Option ℕ
  | 0, _, stop => some stop
  | left + 1, i, stop =>
      if wrap (eh.phoff + (i + 1) * PHDR_SIZE) > buf.length then some 0
      else do
        let ph := wrap (eh.phoff + i * eh.phentsize)
        let offset ← readField buf (ph + 8) 8
        let filesz ← readField buf (ph + 32) 8
        elfSizeLoop buf eh left (i + 1) (max stop (wrap (offset + filesz)))

def vmlinuxElfSize (buf : List UInt8) : Option ℕ :=
  if buf.length < EHDR_SIZE then some 0
  else do
    let eh ← readEhdr buf
    if eh.ident ≠ ELF64_IDENT then some 0
    else
      let stop := max EHDR_SIZE (wrap (eh.phoff + eh.phentsize * eh.phnum))
      elfSizeLoop buf eh eh.phnum 0 (max stop (wrap (eh.shoff + eh.shentsize * eh.shnum)))

/-- The loop of `elf_needs_interp` over the last `left` headers, from index `i` on. -/
def interpLoop (buf : List UInt8) (eh : Ehdr) : ℕ → ℕ → Option Int
  | 0, _ => some 0
  | left + 1, i => do
      let type ← readField buf (wrap (eh.phoff + i * PHDR_SIZE)) 4
      if type = PT_INTERP then some 1 else interpLoop buf eh left (i + 1)

def elfNeedsInterp (buf : List UInt8) : Option Int :=
  if buf.length < EHDR_SIZE then some (-ENOEXEC)
  else do
    let eh ← readEhdr buf
    if eh.ident ≠ ELF64_IDENT ∨ eh.phentsize ≠ PHDR_SIZE ∨
        wrap (eh.phoff + eh.phnum * PHDR_SIZE) > buf.length then some (-ENOEXEC)
    else interpLoop buf eh eh.phnum 0

def hasPaddr (ph : Phdr) : Bool := ph.type = PT_LOAD ∧ ph.paddr ≠ 2 ^ 64 - 1

/-- `p_vaddr - p_paddr` -/
def physOffset (ph : Phdr) : ℕ := wrap (ph.vaddr + (2 ^ 64 - ph.paddr))

def mapsImage (ram image : Phdr) : Bool :=
  image.paddr ≥ ram.paddr ∧ wrap (image.paddr + image.memsz) ≤ wrap (ram.paddr + ram.memsz) ∧
    physOffset image ≠ physOffset ram

/-- The two loops over the headers, which stop at the first pair that fits. -/
def findPageOffset (phdrs : List Phdr) : Option ℕ :=
  phdrs.zipIdx.findSome? fun ram =>
    phdrs.zipIdx.findSome? fun image =>
      if ram.2 = image.2 ∨ !hasPaddr ram.1 ∨ !hasPaddr image.1 ∨ !mapsImage ram.1 image.1 then none
      else some (physOffset ram.1)

/-- `pread` of a file: the bytes that are there, nothing beyond the largest file offset. -/
def pread (file : List UInt8) (len off : ℕ) : List UInt8 :=
  if off > OFFSET_MAX then [] else (file.drop off).take len

def crashinfoReadPageOffset (granted : Bool) (kcore : Except Int (List UInt8)) : Except Int ℕ :=
  match kcore with
  | .error ret => .error ret
  | .ok file =>
      let eh := decodeEhdr file
      if file.length < EHDR_SIZE ∨ eh.ident ≠ ELF64_IDENT ∨ eh.phentsize ≠ PHDR_SIZE then .error (-EINVAL)
      else
        let len := eh.phnum * PHDR_SIZE
        if !granted then .error (-ENOMEM)
        else if eh.phoff > OFFSET_MAX ∨ (pread file len eh.phoff).length ≠ len then .error (- EIO)
        else
          match findPageOffset (readTable eh.phnum (pread file len eh.phoff)) with
          | none => .error (-ENOENT)
          | some offset => .ok offset

end Kmorph
