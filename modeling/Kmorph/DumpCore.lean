import Kmorph.Extents
import Kmorph.HostTreeCore
import Kmorph.Records

/-!
Executable model of the crash dump, `lib/elfcore.c` and `lib/dump.c`. The memory
of the predecessor is a function of the physical address that does not change
during a dump. Output is the bytes of a regular file or of a stream; each `pwrite`
or `write` takes the next answer of the kernel, and a dump that runs out of
answers blocks for good.
-/

namespace Kmorph

open Extents Records

def ELFCORE_PAGE : UInt64 := 4096
def ELFCORE_NO_VADDR : UInt64 := 0xffffffffffffffff
def ELFCORE_MACHINE : ℕ := 62
def PT_LOAD : ℕ := 1
def PT_NOTE : ℕ := 4
def ET_CORE : ℕ := 4
def EHDR_SIZE : ℕ := 64
def PHDR_SIZE : ℕ := 56
def NHDR_SIZE : ℕ := 12

def pageAlign (v : UInt64) : UInt64 := (v + ELFCORE_PAGE - 1) &&& ~~~(ELFCORE_PAGE - 1)

def noteAlign (v : UInt64) : UInt64 := (v + 3) &&& ~~~3

/-- The length of the first note record, 0 at the terminating one or where none fits. -/
def noteRecord (buf : List UInt8) : ℕ :=
  if buf.length < NHDR_SIZE then 0
  else
    match decodeFields [4, 4] buf with
    | [namesz, descsz] =>
        let size := NHDR_SIZE + (noteAlign (UInt64.ofNat namesz)).toNat +
          (noteAlign (UInt64.ofNat descsz)).toNat
        if namesz = 0 ∧ descsz = 0 ∨ size > buf.length then 0 else size
    | _ => 0

theorem noteRecord_le (buf : List UInt8) : noteRecord buf ≤ buf.length := by
  unfold noteRecord
  split
  · omega
  · split
    · simp only
      split
      · omega
      · rename_i fits
        exact Nat.le_of_not_lt (not_or.mp fits).2
    · omega

def elfcoreNotesLen (buf : List UInt8) : ℕ :=
  let size := noteRecord buf
  if size = 0 then 0 else size + elfcoreNotesLen (buf.drop size)
termination_by buf.length
decreasing_by
  have := noteRecord_le buf
  simp only [List.length_drop]
  omega

structure ElfcoreNote where
  data : List UInt8
  len : ℕ
deriving Repr, DecidableEq

structure Phdr where
  type : ℕ
  flags : ℕ
  offset : ℕ
  vaddr : ℕ
  paddr : ℕ
  filesz : ℕ
  memsz : ℕ
  align : ℕ
deriving Repr, DecidableEq

def Phdr.fields (ph : Phdr) : List (ℕ × ℕ) :=
  [(4, ph.type), (4, ph.flags), (8, ph.offset), (8, ph.vaddr), (8, ph.paddr), (8, ph.filesz),
    (8, ph.memsz), (8, ph.align)]

/-- The fields of an `Elf64_Ehdr`, those of `e_ident` as its first eight bytes and its padding. -/
def fillEhdr (phnum : ℕ) : List (ℕ × ℕ) :=
  [(1, 0x7f), (1, 'E'.toNat), (1, 'L'.toNat), (1, 'F'.toNat), (1, 2), (1, 1), (1, 1), (1, 0), (8, 0),
    (2, ET_CORE), (2, ELFCORE_MACHINE), (4, 1), (8, 0), (8, EHDR_SIZE), (8, 0), (4, 0),
    (2, EHDR_SIZE), (2, PHDR_SIZE), (2, phnum), (2, 0), (2, 0), (2, 0)]

structure ElfcoreLayout where
  header : List UInt8
  offsets : List UInt64
  total : UInt64
deriving Repr, DecidableEq

def loadPhdr (hasPageOffset : Bool) (pageOffset : UInt64) (r : Range) (cur : UInt64) : Phdr where
  type := PT_LOAD
  flags := 7
  offset := cur.toNat
  vaddr := (if hasPageOffset then pageOffset + r.base else ELFCORE_NO_VADDR).toNat
  paddr := r.base.toNat
  filesz := r.size.toNat
  memsz := r.size.toNat
  align := ELFCORE_PAGE.toNat

/-- The offset of each range from `cur` on, and the end of the last. -/
def layoutOffsets (cur : UInt64) : List Range → List UInt64 × UInt64
  | [] => ([], cur)
  | r :: rest =>
      let later := layoutOffsets (pageAlign (cur + r.size)) rest
      (cur :: later.1, later.2)

def notePhdr (noteOff notesLen : UInt64) : Phdr where
  type := PT_NOTE
  flags := 0
  offset := noteOff.toNat
  vaddr := 0
  paddr := 0
  filesz := notesLen.toNat
  memsz := notesLen.toNat
  align := 4

/-- All that is allocated at one time lies in the lower half of the address space. -/
def malloc (granted : Bool) (live size : ℕ) : Bool := granted && decide (live + size < 2 ^ 63)

def heldBytes (notes : List ElfcoreNote) : ℕ := (notes.map fun note => note.data.length).sum

def noteOffset (phnum : ℕ) : UInt64 := UInt64.ofNat (EHDR_SIZE + phnum * PHDR_SIZE)

def notesLength (notes : List ElfcoreNote) : UInt64 :=
  notes.foldl (fun len note => len + UInt64.ofNat note.len) 0

def noteBytes (notes : List ElfcoreNote) : List UInt8 :=
  notes.flatMap fun note => note.data.take note.len

def headerLength (phnum : ℕ) (notes : List ElfcoreNote) : UInt64 :=
  pageAlign (noteOffset phnum + notesLength notes)

def corePhdrs (hasPageOffset : Bool) (pageOffset : UInt64) (ranges : List Range)
    (notes : List ElfcoreNote) (offsets : List UInt64) : List Phdr :=
  notePhdr (noteOffset (1 + ranges.length)) (notesLength notes) ::
    List.zipWith (loadPhdr hasPageOffset pageOffset) ranges offsets

/-- The ELF header, the program headers and the notes. -/
def filledHeader (phdrs : List Phdr) (notes : List ElfcoreNote) : List UInt8 :=
  encodeFields (fillEhdr phdrs.length) ++
    (phdrs.flatMap (fun ph => encodeFields ph.fields) ++ noteBytes notes)

def elfcoreLayout (granted : Bool) (ranges : List Range) (notes : List ElfcoreNote)
    (hasPageOffset : Bool) (pageOffset : UInt64) : Except Int ElfcoreLayout :=
  let headerLen := headerLength (1 + ranges.length) notes
  if ranges.length > 65534 then .error (-E2BIG)
  else if !malloc granted (heldBytes notes) headerLen.toNat then .error (-ENOMEM)
  else
    let laid := layoutOffsets headerLen ranges
    let filled := filledHeader (corePhdrs hasPageOffset pageOffset ranges notes laid.1) notes
    .ok {
      header := filled ++ List.replicate (headerLen.toNat - filled.length) 0
      offsets := laid.1
      total := laid.2
    }

def DUMP_CHUNK : UInt64 := 0x100000
def DUMP_NOTE_MAX : UInt64 := 0x100000

/-- The memory device or file: the bytes it holds, how far it reads and which parts of it `mmap`
refuses, besides those beyond the largest file offset. -/
structure Source where
  limit : UInt64
  mem : ℕ → UInt8
  mmap : UInt64 → ℕ → Int

def OFFSET_MAX : ℕ := 2 ^ 63 - 1

def sourceRead (src : Source) (len : ℕ) (off : UInt64) : Except Int (List UInt8) :=
  if off > src.limit ∨ len > (src.limit - off).toNat then .error (- EIO)
  else if off.toNat + len > OFFSET_MAX then .error (-EOVERFLOW)
  else if src.mmap off len ≠ 0 then .error (src.mmap off len)
  else .ok ((List.range len).map fun i => src.mem (off.toNat + i))

inductive WriteAnswer
  | wrote (n : ℕ)
  | interrupted
  | failed (errno : Int) (nonzero : errno ≠ 0)
deriving Repr, DecidableEq

structure Sink where
  seekable : Bool
  pos : UInt64
  out : List UInt8
  answers : List WriteAnswer
deriving Repr, DecidableEq

/-- The result of an output function and the sink it leaves; `none` if it never returns. -/
abbrev Written := Option (Int × Sink)

def writeAll (seekable : Bool) (out : List UInt8) :
    List WriteAnswer → List UInt8 → UInt64 → Option (Int × List UInt8 × List WriteAnswer)
  | answers, [], _ => some (0, out, answers)
  | [], _ :: _, _ => none
  | .interrupted :: answers, buf, off => writeAll seekable out answers buf off
  | .failed errno _ :: answers, _, _ => some (-errno, out, answers)
  | .wrote n :: answers, buf, off =>
      let done := buf.take n
      if done = [] then some (- EIO, out, answers)
      else
        let out := if seekable then writeAt 0 out off.toNat done else out ++ done
        writeAll seekable out answers (buf.drop n) (off + UInt64.ofNat done.length)

def Sink.writeAll (s : Sink) (buf : List UInt8) (off : UInt64) : Written :=
  (Kmorph.writeAll s.seekable s.out s.answers buf off).map fun (ret, out, answers) =>
    (ret, { s with out := out, answers := answers })

/-- The loop of `sink_write` that fills the gap before `off` with zero pages. -/
def fillGap (s : Sink) (off : UInt64) : Written :=
  if s.pos < off then
    let gap := if off - s.pos < ELFCORE_PAGE then off - s.pos else ELFCORE_PAGE
    match s.writeAll (List.replicate gap.toNat 0) 0 with
    | none => none
    | some (ret, filled) =>
        if ret ≠ 0 then some (ret, filled) else fillGap { filled with pos := s.pos + gap } off
  else some (0, s)
termination_by off.toNat - s.pos.toNat
decreasing_by
  have before : s.pos < off := ‹_›
  have := UInt64.lt_iff_toNat_lt.mp before
  have : (off - s.pos).toNat = off.toNat - s.pos.toNat :=
    UInt64.toNat_sub_of_le _ _ (UInt64.le_of_lt before)
  have : ELFCORE_PAGE.toNat = 4096 := rfl
  have := off.toNat_lt
  simp only [UInt64.toNat_add]
  split
  · omega
  · rename_i page
    rw [UInt64.lt_iff_toNat_lt] at page
    omega

def sinkWrite (s : Sink) (buf : List UInt8) (off : UInt64) : Written :=
  if s.seekable then s.writeAll buf off
  else
    match fillGap s off with
    | none => none
    | some (ret, filled) =>
        if ret ≠ 0 then some (ret, filled)
        else { filled with pos := filled.pos + UInt64.ofNat buf.length }.writeAll buf off

def pageIsZero (page : List UInt8) : Bool := page = List.replicate ELFCORE_PAGE.toNat 0

/-- The loop of `write_chunk` over the pages from index `i` on; `start` is where the run of pages
begins that are still to be written. -/
def chunkLoop (buf : List UInt8) (off : UInt64) (start i : ℕ) (s : Sink) : Written :=
  if i < buf.length then
    let page := (buf.drop i).take ELFCORE_PAGE.toNat
    if page.length = ELFCORE_PAGE.toNat ∧ pageIsZero page then
      match if i > start then sinkWrite s ((buf.drop start).take (i - start)) (off + UInt64.ofNat start)
        else some (0, s) with
      | none => none
      | some (ret, s) =>
          if ret ≠ 0 then some (ret, s)
          else chunkLoop buf off (i + page.length) (i + ELFCORE_PAGE.toNat) s
    else chunkLoop buf off start (i + ELFCORE_PAGE.toNat) s
  else if start < buf.length then sinkWrite s (buf.drop start) (off + UInt64.ofNat start)
  else some (0, s)
termination_by buf.length - i
decreasing_by
  all_goals
    have : ELFCORE_PAGE.toNat = 4096 := rfl
    omega

def writeChunk (s : Sink) (buf : List UInt8) (off : UInt64) : Written :=
  if s.seekable then chunkLoop buf off 0 0 s else sinkWrite s buf off

def copyRange (src : Source) (base size off : UInt64) (s : Sink) : Written :=
  if size ≠ 0 then
    let want := if size < DUMP_CHUNK then size else DUMP_CHUNK
    match sourceRead src want.toNat base with
    | .error ret => some (ret, s)
    | .ok buf =>
        match writeChunk s buf off with
        | none => none
        | some (ret, s) =>
            if ret ≠ 0 then some (ret, s)
            else copyRange src (base + want) (size - want) (off + want) s
  else some (0, s)
termination_by size.toNat
decreasing_by
  have left : size ≠ 0 := ‹_›
  have : size.toNat ≠ 0 := fun zero => left (UInt64.toNat_inj.mp zero)
  have chunk : DUMP_CHUNK.toNat = 0x100000 := rfl
  split
  · simp only [UInt64.sub_self, UInt64.toNat_zero]
    omega
  · rename_i large
    have : DUMP_CHUNK ≤ size := UInt64.not_lt.mp large
    rw [UInt64.toNat_sub_of_le _ _ this]
    omega

/-- The note records a buffer holds; none if it is empty, too large or cannot be read. -/
def readNote (src : Source) (granted : Bool) (live : ℕ) (r : Range) : Except Int ElfcoreNote :=
  if r.size = 0 ∨ r.size > DUMP_NOTE_MAX then .ok ⟨[], 0⟩
  else if !malloc granted live r.size.toNat then .error (-ENOMEM)
  else
    match sourceRead src r.size.toNat r.base with
    | .error _ => .ok ⟨[], 0⟩
    | .ok buf =>
        let len := elfcoreNotesLen buf
        if len = 0 then .ok ⟨[], 0⟩ else .ok ⟨buf, len⟩

def addNote (src : Source) (granted : Bool) (notes : List ElfcoreNote) (r : Range) :
    Except Int (List ElfcoreNote) :=
  match readNote src granted (heldBytes notes) r with
  | .error ret => .error ret
  | .ok cur => .ok (if cur.len ≠ 0 then notes ++ [cur] else notes)

def collectCpuNotes (src : Source) :
    (ℕ → Bool) → List ElfcoreNote → List Range → Except Int (List ElfcoreNote)
  | _, notes, [] => .ok notes
  | granted, notes, r :: rest =>
      match addNote src (granted 0) notes r with
      | .error ret => .error ret
      | .ok notes => collectCpuNotes src (fun round => granted (round + 1)) notes rest

structure DumpAnswers where
  sourceOpened : Int
  notes : Bool
  cpuNotes : ℕ → Bool
  vmcoreinfo : Bool
  layout : Bool
  sinkOpened : Int
  regular : Bool
  truncated : Int
  buffer : Bool
  writes : List WriteAnswer
  synced : Int
  closed : Int

def collectNotes (a : DumpAnswers) (src : Source) (vi : VmcoreInfo) :
    Except Int (List ElfcoreNote) :=
  if !a.notes then .error (-ENOMEM)
  else
    match collectCpuNotes src a.cpuNotes [] vi.cpuNotes with
    | .error ret => .error ret
    | .ok notes => addNote src a.vmcoreinfo notes vi.vmcoreinfo

def openSink (a : DumpAnswers) (total : UInt64) : Int × Sink :=
  let s : Sink := ⟨a.regular, 0, [], a.writes⟩
  if a.sinkOpened ≠ 0 then (a.sinkOpened, s)
  else if !a.regular then (0, s)
  else if a.truncated ≠ 0 then (a.truncated, s)
  else (0, { s with out := List.replicate total.toNat 0 })

def copyRanges (src : Source) : List (Range × UInt64) → Sink → Written
  | [], s => some (0, s)
  | (r, off) :: rest, s =>
      match copyRange src r.base r.size off s with
      | none => none
      | some (ret, s) => if ret ≠ 0 then some (ret, s) else copyRanges src rest s

def writeCore (src : Source) (ranges : List Range) (layout : ElfcoreLayout) (s : Sink) : Written :=
  match sinkWrite s layout.header 0 with
  | none => none
  | some (ret, s) =>
      if ret ≠ 0 then some (ret, s)
      else
        match copyRanges src (ranges.zip layout.offsets) s with
        | none => none
        | some (ret, s) =>
            if ret = 0 ∧ s.seekable = false ∧ s.pos < layout.total then sinkWrite s [] layout.total
            else some (ret, s)

/-- What `dump_vmcore` returns and the bytes it leaves in the file or has sent to the stream. -/
def dumpVmcore (a : DumpAnswers) (src : Source) (ranges : List Range) (vi : VmcoreInfo) :
    Option (Int × List UInt8) :=
  if a.sourceOpened ≠ 0 then some (a.sourceOpened, [])
  else
    match collectNotes a src vi with
    | .error ret => some (ret, [])
    | .ok notes =>
        match elfcoreLayout a.layout ranges notes vi.hasPageOffset vi.pageOffset with
        | .error ret => some (ret, [])
        | .ok layout =>
            let opened := openSink a layout.total
            if opened.1 ≠ 0 then some (opened.1, opened.2.out)
            else if !a.buffer then some (-ENOMEM, opened.2.out)
            else
              (writeCore src ranges layout opened.2).map fun (ret, s) =>
                let ret := if ret = 0 ∧ s.seekable = true ∧ a.synced ≠ 0 then a.synced else ret
                (if ret = 0 ∧ a.closed ≠ 0 then a.closed else ret, s.out)

end Kmorph
