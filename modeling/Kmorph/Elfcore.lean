import Kmorph.Dump
import Kmorph.ImageCore

/-!
The layout of a core file: its program headers read back, the notes lie in their
buffers, and the ranges follow the header in order at page-aligned offsets.
-/

namespace Kmorph

open Extents Records

/-- The program headers of a little-endian ELF64 core. -/
def readPhdrs (file : List UInt8) : Option (List Phdr) :=
  let eh := decodeFields [1, 1, 1, 1, 1, 1, 1, 1, 8, 2, 2, 4, 8, 8, 8, 4, 2, 2, 2, 2, 2, 2] file
  if eh.take 4 = [0x7f, 'E'.toNat, 'L'.toNat, 'F'.toNat] ∧ eh.getD 4 0 = 2 ∧ eh.getD 5 0 = 1 ∧
      eh.getD 9 0 = ET_CORE ∧ eh.getD 17 0 = PHDR_SIZE then
    some (readTable (eh.getD 18 0) (file.drop (eh.getD 13 0)))
  else none

/-- The values of a program header fit its fields. -/
def Phdr.Fits (ph : Phdr) : Prop := ∀ field ∈ ph.fields, field.2 < 256 ^ field.1

theorem length_phdr (ph : Phdr) : (encodeFields ph.fields).length = PHDR_SIZE := by
  rw [length_encodeFields]
  rfl

theorem decodePhdr_encode {ph : Phdr} (fits : ph.Fits) (rest : List UInt8) :
    decodePhdr (encodeFields ph.fields ++ rest) = ph := by
  have fields := decodeFields_encodeFields fits rest
  have widths : ph.fields.map Prod.fst = [4, 4, 8, 8, 8, 8, 8, 8] := rfl
  rw [widths] at fields
  rw [decodePhdr, fields]
  rfl

theorem readTable_encode {phdrs : List Phdr} (fits : ∀ ph ∈ phdrs, ph.Fits) (rest : List UInt8) :
    readTable phdrs.length (phdrs.flatMap (fun ph => encodeFields ph.fields) ++ rest) = phdrs := by
  induction phdrs with
  | nil => rfl
  | cons ph phdrs ih =>
      rw [List.flatMap_cons, List.append_assoc, List.length_cons, readTable,
        decodePhdr_encode (fits ph (by simp)), List.drop_left' (length_phdr ph),
        ih fun other member => fits other (by simp [member])]

theorem length_fillEhdr (phnum : ℕ) : (encodeFields (fillEhdr phnum)).length = EHDR_SIZE := by
  simp [length_encodeFields, fillEhdr, EHDR_SIZE]

theorem readPhdrs_header {phdrs : List Phdr} (few : phdrs.length < 2 ^ 16)
    (fits : ∀ ph ∈ phdrs, ph.Fits) (rest : List UInt8) :
    readPhdrs (encodeFields (fillEhdr phdrs.length) ++
      (phdrs.flatMap (fun ph => encodeFields ph.fields) ++ rest)) = some phdrs := by
  have small : ∀ field ∈ fillEhdr phdrs.length, field.2 < 256 ^ field.1 := by
    simp [fillEhdr, ET_CORE, ELFCORE_MACHINE, EHDR_SIZE, PHDR_SIZE]
    omega
  have fields := decodeFields_encodeFields small
    (phdrs.flatMap (fun ph => encodeFields ph.fields) ++ rest)
  have widths : (fillEhdr phdrs.length).map Prod.fst =
    [1, 1, 1, 1, 1, 1, 1, 1, 8, 2, 2, 4, 8, 8, 8, 4, 2, 2, 2, 2, 2, 2] := rfl
  rw [widths] at fields
  simp only [readPhdrs, fields]
  have magic : ((fillEhdr phdrs.length).map Prod.snd).take 4 =
    [0x7f, 'E'.toNat, 'L'.toNat, 'F'.toNat] := rfl
  have table : ((fillEhdr phdrs.length).map Prod.snd).getD 13 0 = EHDR_SIZE := rfl
  have count : ((fillEhdr phdrs.length).map Prod.snd).getD 18 0 = phdrs.length := rfl
  rw [if_pos ⟨magic, rfl, rfl, rfl, rfl⟩, table, count, List.drop_left' (length_fillEhdr _),
    readTable_encode fits]

theorem elfcoreNotesLen_le (buf : List UInt8) : elfcoreNotesLen buf ≤ buf.length := by
  induction buf using elfcoreNotesLen.induct with
  | case1 buf size last =>
      rw [elfcoreNotesLen, if_pos last]
      omega
  | case2 buf size more ih =>
      have := noteRecord_le buf
      rw [List.length_drop] at ih
      rw [elfcoreNotesLen, if_neg more]
      simp only [size] at ih
      omega

/-- The notes lie in their buffers, and the buffers in memory. -/
structure Held (notes : List ElfcoreNote) : Prop where
  lens : ∀ note ∈ notes, note.len ≤ note.data.length
  bound : heldBytes notes < 2 ^ 63

@[simp] theorem malloc_eq_true {granted : Bool} {live size : ℕ} :
    malloc granted live size = true ↔ granted = true ∧ live + size < 2 ^ 63 := by
  simp only [malloc, Bool.and_eq_true, decide_eq_true_eq]

theorem readNote_ok {src : Source} {granted : Bool} {live : ℕ} {r : Range} {note : ElfcoreNote}
    (read : readNote src granted live r = .ok note) (found : note.len ≠ 0) :
    note.len ≤ note.data.length ∧ live + note.data.length < 2 ^ 63 := by
  simp only [readNote] at read
  split at read
  · cases read
    exact absurd rfl found
  · split at read
    · simp at read
    · rename_i allocated
      split at read
      · cases read
        exact absurd rfl found
      · rename_i buf filled
        split at read
        · cases read
          exact absurd rfl found
        · cases read
          have length := congrArg List.length (sourceRead_ok filled).1
          rw [length_slice] at length
          simp only [Bool.not_eq_true', Bool.not_eq_false, malloc_eq_true] at allocated
          refine ⟨elfcoreNotesLen_le buf, ?_⟩
          rw [length]
          exact allocated.2

theorem addNote_held {src : Source} {granted : Bool} {notes after : List ElfcoreNote} {r : Range}
    (held : Held notes) (added : addNote src granted notes r = .ok after) : Held after := by
  simp only [addNote] at added
  split at added
  · simp at added
  · rename_i note read
    cases added
    split
    · rename_i found
      obtain ⟨len, bound⟩ := readNote_ok read found
      refine ⟨?_, by simpa [heldBytes] using bound⟩
      intro other member
      rcases List.mem_append.mp member with old | new
      · exact held.lens other old
      · rwa [List.mem_singleton.mp new]
    · exact held

theorem collectCpuNotes_held {src : Source} {granted : ℕ → Bool} {notes after : List ElfcoreNote}
    {ranges : List Range} (held : Held notes)
    (collected : collectCpuNotes src granted notes ranges = .ok after) : Held after := by
  induction ranges generalizing granted notes with
  | nil =>
      cases collected
      exact held
  | cons r rest ih =>
      simp only [collectCpuNotes] at collected
      split at collected
      · simp at collected
      · rename_i middle added
        exact ih (addNote_held held added) collected

theorem collectNotes_ok {a : DumpAnswers} {src : Source} {vi : VmcoreInfo}
    {notes : List ElfcoreNote} (collected : collectNotes a src vi = .ok notes) :
    ∃ cpus, collectCpuNotes src a.cpuNotes [] vi.cpuNotes = .ok cpus ∧
      addNote src a.vmcoreinfo cpus vi.vmcoreinfo = .ok notes := by
  simp only [collectNotes] at collected
  split at collected
  · simp at collected
  · split at collected
    · simp at collected
    · rename_i cpus found
      exact ⟨cpus, found, collected⟩

theorem addNote_error {src : Source} {granted : Bool} {notes : List ElfcoreNote} {r : Range}
    {ret : Int} (failed : addNote src granted notes r = .error ret) : ret = -ENOMEM := by
  simp only [addNote] at failed
  split at failed
  · rename_i cause read
    cases failed
    simp only [readNote] at read
    split at read
    · simp at read
    · split at read
      · cases read
        rfl
      · split at read
        · simp at read
        · split at read <;> simp at read
  · simp at failed

theorem collectCpuNotes_error {src : Source} {granted : ℕ → Bool} {notes : List ElfcoreNote}
    {ranges : List Range} {ret : Int}
    (failed : collectCpuNotes src granted notes ranges = .error ret) : ret = -ENOMEM := by
  induction ranges generalizing granted notes with
  | nil => simp [collectCpuNotes] at failed
  | cons r rest ih =>
      simp only [collectCpuNotes] at failed
      split at failed
      · rename_i cause notAdded
        cases failed
        exact addNote_error notAdded
      · exact ih failed

theorem collectNotes_error {a : DumpAnswers} {src : Source} {vi : VmcoreInfo} {ret : Int}
    (failed : collectNotes a src vi = .error ret) : ret ≠ 0 := by
  have refused : ret = -ENOMEM := by
    simp only [collectNotes] at failed
    split at failed
    · cases failed
      rfl
    · split at failed
      · rename_i cause notCollected
        cases failed
        exact collectCpuNotes_error notCollected
      · exact addNote_error failed
  rw [refused]
  decide

theorem collectNotes_held {a : DumpAnswers} {src : Source} {vi : VmcoreInfo}
    {notes : List ElfcoreNote} (collected : collectNotes a src vi = .ok notes) : Held notes := by
  obtain ⟨cpus, found, added⟩ := collectNotes_ok collected
  have start : Held [] := ⟨by simp, by simp [heldBytes]⟩
  exact addNote_held (collectCpuNotes_held start found) added

theorem addNote_granted {src : Source} {granted : Bool} {notes after : List ElfcoreNote} {r : Range}
    (added : addNote src granted notes r = .ok after) : addNote src true notes r = .ok after := by
  cases granted with
  | true => exact added
  | false =>
      simp only [addNote, readNote, malloc, Bool.false_and, Bool.not_false, if_true] at added ⊢
      by_cases none : r.size = 0 ∨ r.size > DUMP_NOTE_MAX
      · rwa [if_pos none] at added ⊢
      · rw [if_neg none] at added
        simp at added

theorem collectCpuNotes_granted {src : Source} {granted : ℕ → Bool}
    {notes after : List ElfcoreNote} {ranges : List Range}
    (collected : collectCpuNotes src granted notes ranges = .ok after) :
    collectCpuNotes src (fun _ => true) notes ranges = .ok after := by
  induction ranges generalizing granted notes with
  | nil => exact collected
  | cons r rest ih =>
      simp only [collectCpuNotes] at collected ⊢
      split at collected
      · simp at collected
      · rename_i middle added
        rw [addNote_granted added]
        exact ih collected

theorem collectNotes_unique {a b : DumpAnswers} {src : Source} {vi : VmcoreInfo}
    {first second : List ElfcoreNote} (one : collectNotes a src vi = .ok first)
    (other : collectNotes b src vi = .ok second) : first = second := by
  obtain ⟨cpus, found, added⟩ := collectNotes_ok one
  obtain ⟨cpus', found', added'⟩ := collectNotes_ok other
  have sameCpus := (collectCpuNotes_granted found).symm.trans (collectCpuNotes_granted found')
  rw [Except.ok.inj sameCpus] at added
  exact Except.ok.inj ((addNote_granted added).symm.trans (addNote_granted added'))

theorem length_noteBytes_le (notes : List ElfcoreNote) :
    (noteBytes notes).length ≤ heldBytes notes := by
  induction notes with
  | nil => simp [noteBytes]
  | cons note notes ih =>
      simp only [noteBytes, heldBytes, List.flatMap_cons, List.length_append, List.length_take,
        List.map_cons, List.sum_cons] at ih ⊢
      omega

theorem notesLength_foldl {notes : List ElfcoreNote} {len : UInt64}
    (lens : ∀ note ∈ notes, note.len ≤ note.data.length)
    (bound : len.toNat + (noteBytes notes).length < 2 ^ 64) :
    (notes.foldl (fun len note => len + UInt64.ofNat note.len) len).toNat =
      len.toNat + (noteBytes notes).length := by
  induction notes generalizing len with
  | nil => rfl
  | cons note notes ih =>
      have inBuffer := lens note (by simp)
      simp only [noteBytes, List.flatMap_cons, List.length_append, List.length_take] at bound ⊢
      have added : (len + UInt64.ofNat note.len).toNat = len.toNat + note.len := by
        rw [UInt64.toNat_add, UInt64.toNat_ofNat']
        omega
      rw [List.foldl_cons, ih (fun other member => lens other (by simp [member]))]
      · rw [added, noteBytes]
        omega
      · rw [added, noteBytes]
        omega

theorem notesLength_toNat {notes : List ElfcoreNote} (held : Held notes) :
    (notesLength notes).toNat = (noteBytes notes).length := by
  have := length_noteBytes_le notes
  have := held.bound
  rw [notesLength, notesLength_foldl held.lens, UInt64.toNat_zero, Nat.zero_add]
  rw [UInt64.toNat_zero]
  omega

/-- The end of the headers and notes in the file. -/
def headerEnd (phnum : ℕ) (notes : List ElfcoreNote) : ℕ :=
  EHDR_SIZE + phnum * PHDR_SIZE + (noteBytes notes).length

theorem noteOffset_toNat {phnum : ℕ} (few : phnum < 2 ^ 16) :
    (noteOffset phnum).toNat = EHDR_SIZE + phnum * PHDR_SIZE := by
  simp only [noteOffset, UInt64.toNat_ofNat', EHDR_SIZE, PHDR_SIZE]
  omega

theorem headerLength_toNat {phnum : ℕ} {notes : List ElfcoreNote} (held : Held notes)
    (few : phnum < 2 ^ 16) :
    (headerLength phnum notes).toNat = (headerEnd phnum notes + 4095) / 4096 * 4096 := by
  have := length_noteBytes_le notes
  have := held.bound
  have off := noteOffset_toNat few
  have len := notesLength_toNat held
  have sum : (noteOffset phnum + notesLength notes).toNat = headerEnd phnum notes := by
    rw [UInt64.toNat_add, off, len, headerEnd]
    simp only [EHDR_SIZE, PHDR_SIZE]
    omega
  rw [headerLength, pageAlign_toNat, sum]
  rw [sum, headerEnd]
  simp only [EHDR_SIZE, PHDR_SIZE]
  omega

theorem length_phdrs (phdrs : List Phdr) :
    (phdrs.flatMap fun ph => encodeFields ph.fields).length = phdrs.length * PHDR_SIZE := by
  simp [List.length_flatMap, length_phdr]

theorem length_filledHeader (phdrs : List Phdr) (notes : List ElfcoreNote) :
    (filledHeader phdrs notes).length = headerEnd phdrs.length notes := by
  rw [filledHeader, List.length_append, List.length_append, length_fillEhdr, length_phdrs, headerEnd]
  omega

theorem filledHeader_notes (phdrs : List Phdr) (notes : List ElfcoreNote) (rest : List UInt8) :
    ((filledHeader phdrs notes ++ rest).drop (EHDR_SIZE + phdrs.length * PHDR_SIZE)).take
      (noteBytes notes).length = noteBytes notes := by
  have before : (encodeFields (fillEhdr phdrs.length) ++
      phdrs.flatMap fun ph => encodeFields ph.fields).length =
        EHDR_SIZE + phdrs.length * PHDR_SIZE := by
    rw [List.length_append, length_fillEhdr, length_phdrs]
  rw [filledHeader, ← List.append_assoc, List.append_assoc _ (noteBytes notes),
    List.drop_left' before, List.take_left' rfl]

/-- The bytes the ranges may take in the file, each rounded up to pages. -/
def loadBytes (ranges : List Range) : ℕ := (ranges.map fun r => r.size.toNat + 4095).sum

theorem loadBytes_eq (ranges : List Range) :
    loadBytes ranges = (ranges.map fun r => r.size.toNat).sum + ranges.length * 4095 := by
  induction ranges with
  | nil => rfl
  | cons r rest ih =>
      simp only [loadBytes, List.map_cons, List.sum_cons, List.length_cons] at ih ⊢
      omega

structure Offsets (mem : ℕ → UInt8) (cur : UInt64) (ranges : List Range) : Prop where
  pages : ∀ off ∈ (layoutOffsets cur ranges).1, off.toNat % 4096 = 0
  ordered : InOrder cur.toNat ((ranges.zip (layoutOffsets cur ranges).1).map (piece mem))
    (layoutOffsets cur ranges).2.toNat

theorem layoutOffsets_laid (mem : ℕ → UInt8) {cur : UInt64} {ranges : List Range}
    (page : cur.toNat % 4096 = 0) (bound : cur.toNat + loadBytes ranges < 2 ^ 64) :
    Offsets mem cur ranges := by
  induction ranges generalizing cur with
  | nil => exact ⟨by simp [layoutOffsets], Nat.le_refl _⟩
  | cons r rest ih =>
      simp only [loadBytes, List.map_cons, List.sum_cons] at bound ih
      have sum : (cur + r.size).toNat = cur.toNat + r.size.toNat := by
        rw [UInt64.toNat_add]
        omega
      have next : (pageAlign (cur + r.size)).toNat =
          (cur.toNat + r.size.toNat + 4095) / 4096 * 4096 := by
        rw [pageAlign_toNat, sum]
        rw [sum]
        omega
      have later : Offsets mem (pageAlign (cur + r.size)) rest := ih (by omega) (by omega)
      refine ⟨?_, ?_⟩
      · simp only [layoutOffsets, List.forall_mem_cons]
        exact ⟨page, later.pages⟩
      · refine ⟨Nat.le_refl _, ?_⟩
        rw [length_slice]
        refine later.ordered.mono ?_
        simp only
        omega

theorem length_layoutOffsets (cur : UInt64) (ranges : List Range) :
    (layoutOffsets cur ranges).1.length = ranges.length := by
  induction ranges generalizing cur with
  | nil => rfl
  | cons r rest ih => simp [layoutOffsets, ih]

theorem elfcoreLayout_error {granted hasPageOffset : Bool} {ranges : List Range}
    {notes : List ElfcoreNote} {pageOffset : UInt64} {ret : Int}
    (failed : elfcoreLayout granted ranges notes hasPageOffset pageOffset = .error ret) :
    ret ≠ 0 := by
  simp only [elfcoreLayout] at failed
  split at failed
  · cases failed
    decide
  · split at failed
    · cases failed
      decide
    · simp at failed

theorem elfcoreLayout_ok {granted hasPageOffset : Bool} {ranges : List Range}
    {notes : List ElfcoreNote} {pageOffset : UInt64} {layout : ElfcoreLayout}
    (laid : elfcoreLayout granted ranges notes hasPageOffset pageOffset = .ok layout) :
    ranges.length ≤ 65534 ∧
      heldBytes notes + (headerLength (1 + ranges.length) notes).toNat < 2 ^ 63 ∧
      elfcoreLayout true ranges notes hasPageOffset pageOffset = .ok layout := by
  simp only [elfcoreLayout] at laid ⊢
  split at laid
  · simp at laid
  · rename_i few
    split at laid
    · simp at laid
    · rename_i allocated
      simp only [Bool.not_eq_true', Bool.not_eq_false, malloc_eq_true] at allocated
      refine ⟨by omega, allocated.2, ?_⟩
      rw [if_neg few, malloc_eq_true.mpr ⟨rfl, allocated.2⟩]
      exact laid

theorem elfcoreLayout_count {granted hasPageOffset : Bool} {ranges : List Range}
    {notes : List ElfcoreNote} {pageOffset : UInt64} {layout : ElfcoreLayout}
    (laid : elfcoreLayout granted ranges notes hasPageOffset pageOffset = .ok layout) :
    layout.offsets.length = ranges.length := by
  simp only [elfcoreLayout] at laid
  split at laid
  · simp at laid
  · split at laid
    · simp at laid
    · cases laid
      exact length_layoutOffsets _ _

theorem length_corePhdrs {ranges : List Range} {notes : List ElfcoreNote} {hasPageOffset : Bool}
    {pageOffset : UInt64} {offsets : List UInt64} (count : offsets.length = ranges.length) :
    (corePhdrs hasPageOffset pageOffset ranges notes offsets).length = 1 + ranges.length := by
  simp only [corePhdrs, List.length_cons, List.length_zipWith]
  omega

def corePieces (mem : ℕ → UInt8) (ranges : List Range) (layout : ElfcoreLayout) :
    List (ℕ × List UInt8) :=
  (0, layout.header) :: (ranges.zip layout.offsets).map (piece mem)

/-- The layout of a core file with these ranges and notes. -/
structure CoreLayout (mem : ℕ → UInt8) (ranges : List Range) (notes : List ElfcoreNote)
    (vi : VmcoreInfo) (layout : ElfcoreLayout) : Prop where
  few : ranges.length ≤ 65534
  header : ∃ padding, layout.header =
    filledHeader (corePhdrs vi.hasPageOffset vi.pageOffset ranges notes layout.offsets) notes ++
      List.replicate padding 0
  count : layout.offsets.length = ranges.length
  pages : ∀ off ∈ layout.offsets, off.toNat % 4096 = 0
  ordered : InOrder 0 (corePieces mem ranges layout) layout.total.toNat

theorem elfcoreLayout_laid (mem : ℕ → UInt8) {granted : Bool} {ranges : List Range}
    {notes : List ElfcoreNote} {vi : VmcoreInfo} {layout : ElfcoreLayout} (held : Held notes)
    (sizes : (ranges.map fun r => r.size.toNat).sum ≤ 2 ^ 63)
    (laid : elfcoreLayout granted ranges notes vi.hasPageOffset vi.pageOffset = .ok layout) :
    CoreLayout mem ranges notes vi layout := by
  obtain ⟨few, allocated, laid⟩ := elfcoreLayout_ok laid
  have header := headerLength_toNat held (show 1 + ranges.length < 2 ^ 16 by omega)
  have loads : loadBytes ranges ≤ 2 ^ 63 + 65534 * 4095 := by
    rw [loadBytes_eq]
    omega
  have notesFit := length_noteBytes_le notes
  have small : headerEnd (1 + ranges.length) notes ≤ 64 + 65535 * 56 + heldBytes notes := by
    simp only [headerEnd, EHDR_SIZE, PHDR_SIZE]
    omega
  have offsets : Offsets mem (headerLength (1 + ranges.length) notes) ranges :=
    layoutOffsets_laid mem (by omega) (by omega)
  simp only [elfcoreLayout] at laid
  rw [if_neg (by omega), malloc_eq_true.mpr ⟨rfl, allocated⟩] at laid
  cases laid
  refine ⟨few, ⟨_, rfl⟩, length_layoutOffsets _ _, offsets.pages, Nat.le_refl 0, ?_⟩
  refine offsets.ordered.mono ?_
  rw [Nat.zero_add, List.length_append, List.length_replicate, length_filledHeader,
    length_corePhdrs (length_layoutOffsets _ _)]
  omega

end Kmorph
