import Kmorph.Chunks
import Kmorph.Vmcore

/-!
The note records of a crash dump. A reader of the PT_NOTE segment cuts it into
records by their headers; it finds the records of the buffers, whole and in order.
-/

namespace Kmorph

open Chunks Records

def padded (len : ℕ) : ℕ := (len + 3) / 4 * 4

def namesz (record : List UInt8) : ℕ := decodeField (record.take 4)

def descsz (record : List UInt8) : ℕ := decodeField ((record.drop 4).take 4)

/-- A header, then the name and the descriptor it announces, each padded to four bytes. A
header that announces neither ends the records. -/
structure IsNote (record : List UInt8) : Prop where
  header : NHDR_SIZE ≤ record.length
  announces : ¬ (namesz record = 0 ∧ descsz record = 0)
  length : record.length = NHDR_SIZE + padded (namesz record) + padded (descsz record)

def noteSpan (buf : List UInt8) : ℕ :=
  let size := NHDR_SIZE + padded (namesz buf) + padded (descsz buf)
  if NHDR_SIZE ≤ buf.length ∧ ¬ (namesz buf = 0 ∧ descsz buf = 0) ∧ size ≤ buf.length then size
  else 0

theorem namesz_append {buf : List UInt8} (long : NHDR_SIZE ≤ buf.length) (rest : List UInt8) :
    namesz (buf ++ rest) = namesz buf := by
  rw [NHDR_SIZE] at long
  rw [namesz, namesz, List.take_append_of_le_length (by omega)]

theorem descsz_append {buf : List UInt8} (long : NHDR_SIZE ≤ buf.length) (rest : List UInt8) :
    descsz (buf ++ rest) = descsz buf := by
  rw [NHDR_SIZE] at long
  rw [descsz, descsz, List.drop_append_of_le_length (by omega),
    List.take_append_of_le_length (by rw [List.length_drop]; omega)]

theorem noteSpan_eq {buf : List UInt8} (found : noteSpan buf ≠ 0) :
    NHDR_SIZE ≤ buf.length ∧ ¬ (namesz buf = 0 ∧ descsz buf = 0) ∧ noteSpan buf ≤ buf.length ∧
      noteSpan buf = NHDR_SIZE + padded (namesz buf) + padded (descsz buf) := by
  simp only [noteSpan] at found ⊢
  split at found
  · rename_i whole
    rw [if_pos whole]
    exact ⟨whole.1, whole.2.1, whole.2.2, rfl⟩
  · exact absurd rfl found

theorem noteSpan_le (buf : List UInt8) : noteSpan buf ≤ buf.length := by
  by_cases none : noteSpan buf = 0
  · omega
  · exact (noteSpan_eq none).2.2.1

theorem noteSpan_stable (buf rest : List UInt8) (found : noteSpan buf ≠ 0) :
    noteSpan (buf.take (noteSpan buf) ++ rest) = noteSpan buf := by
  obtain ⟨long, announces, fits, size⟩ := noteSpan_eq found
  have length : (buf.take (noteSpan buf)).length = noteSpan buf := List.length_take_of_le fits
  have header : NHDR_SIZE ≤ (buf.take (noteSpan buf)).length := by omega
  -- The header lies in the part that is kept, so both lengths are read as before.
  have name : namesz (buf.take (noteSpan buf)) = namesz buf := by
    have whole := namesz_append header (buf.drop (noteSpan buf))
    rwa [List.take_append_drop, eq_comm] at whole
  have desc : descsz (buf.take (noteSpan buf)) = descsz buf := by
    have whole := descsz_append header (buf.drop (noteSpan buf))
    rwa [List.take_append_drop, eq_comm] at whole
  rw [noteSpan, namesz_append header, descsz_append header, name, desc, ← size]
  exact if_pos ⟨by rw [List.length_append]; omega, announces,
    by rw [List.length_append]; omega⟩

def noteDelimiter : Delimiter UInt8 := ⟨noteSpan, noteSpan_le, noteSpan_stable⟩

def noteRecords (buf : List UInt8) : List (List UInt8) := noteDelimiter.chunks buf

theorem isChunk_iff_isNote (record : List UInt8) : noteDelimiter.IsChunk record ↔ IsNote record := by
  constructor
  · rintro ⟨nonempty, whole⟩
    have found : noteSpan record ≠ 0 := fun none =>
      nonempty (List.length_eq_zero_iff.mp (whole.symm.trans none))
    obtain ⟨header, announces, -, size⟩ := noteSpan_eq found
    exact ⟨header, announces, whole.symm.trans size⟩
  · rintro ⟨header, announces, length⟩
    refine ⟨fun empty => ?_, ?_⟩
    · rw [empty] at header
      exact absurd header (by decide)
    · exact (if_pos ⟨header, announces, le_of_eq length.symm⟩).trans length.symm

theorem isNote_length {record : List UInt8} (note : IsNote record) : record.length % 4 = 0 := by
  have length := note.length
  simp only [NHDR_SIZE, padded] at length
  omega

/-- A sequence of whole records. -/
def IsNotes (bytes : List UInt8) : Prop :=
  ∃ records : List (List UInt8), (∀ record ∈ records, IsNote record) ∧ bytes = records.flatten

theorem flatten_length_mod {records : List (List UInt8)}
    (notes : ∀ record ∈ records, IsNote record) : records.flatten.length % 4 = 0 := by
  induction records with
  | nil => rfl
  | cons record records ih =>
      have first := isNote_length (notes record (by simp))
      have rest := ih fun other member => notes other (by simp [member])
      rw [List.flatten_cons, List.length_append]
      omega

theorem noteRecords_notes (buf : List UInt8) : ∀ record ∈ noteRecords buf, IsNote record :=
  fun record member => (isChunk_iff_isNote record).mp (Delimiter.isChunk_of_mem member)

theorem noteRecords_flatten {records : List (List UInt8)}
    (notes : ∀ record ∈ records, IsNote record) : noteRecords records.flatten = records :=
  Delimiter.chunks_flatten fun record member => (isChunk_iff_isNote record).mpr (notes record member)

theorem noteAlign_toNat {v : UInt64} (fits : v.toNat + 3 < 2 ^ 64) :
    (noteAlign v).toNat = padded v.toNat := by
  have raised : (v + 3).toNat = v.toNat + 3 := by
    rw [UInt64.toNat_add]
    exact Nat.mod_eq_of_lt fits
  rw [noteAlign, @and_mask_toNat _ 2 (by decide), raised]
  rfl

/-- The lengths are 32 bits wide, so no sum of `elfcore_notes_len` wraps. -/
theorem noteRecord_eq_span (buf : List UInt8) : noteRecord buf = noteSpan buf := by
  have align (bytes : List UInt8) (narrow : bytes.length ≤ 4) :
      (noteAlign (UInt64.ofNat (decodeField bytes))).toNat = padded (decodeField bytes) := by
    have bound := decodeField_lt bytes
    have widest : 256 ^ bytes.length ≤ 256 ^ 4 := Nat.pow_le_pow_right (by decide) narrow
    have small : (UInt64.ofNat (decodeField bytes)).toNat = decodeField bytes := by
      rw [UInt64.toNat_ofNat']
      omega
    rw [noteAlign_toNat (by omega), small]
  have fields : decodeFields [4, 4] buf = [namesz buf, descsz buf] := rfl
  simp only [noteRecord, fields]
  rw [namesz, descsz, align _ (List.length_take_le _ _), align _ (List.length_take_le _ _), ← namesz,
    ← descsz, noteSpan]
  by_cases short : buf.length < NHDR_SIZE
  · rw [if_pos short, if_neg fun whole => absurd whole.1 (by omega)]
  · rw [if_neg short]
    by_cases last : namesz buf = 0 ∧ descsz buf = 0 ∨
        NHDR_SIZE + padded (namesz buf) + padded (descsz buf) > buf.length
    · rw [if_pos last, if_neg]
      rintro ⟨-, announces, fits⟩
      rcases last with none | large
      · exact announces none
      · omega
    · rw [if_neg last, if_pos]
      exact ⟨by omega, fun none => last (Or.inl none),
        Nat.le_of_not_lt fun large => last (Or.inr large)⟩

theorem elfcoreNotesLen_eq (buf : List UInt8) :
    elfcoreNotesLen buf = (noteRecords buf).flatten.length := by
  induction buf using elfcoreNotesLen.induct with
  | case1 buf size last =>
      have none : noteDelimiter.size buf = 0 := (noteRecord_eq_span buf).symm.trans last
      rw [elfcoreNotesLen, if_pos last, noteRecords, Delimiter.chunks_of_size_zero none]
      rfl
  | case2 buf size more ih =>
      have span : size = noteDelimiter.size buf := noteRecord_eq_span buf
      have fits := noteRecord_le buf
      rw [elfcoreNotesLen, if_neg more]
      rw [noteRecords, Delimiter.chunks_of_size (span ▸ more), List.flatten_cons,
        List.length_append, ← span, ← noteRecords, ← ih, List.length_take_of_le fits]

theorem take_elfcoreNotesLen (buf : List UInt8) :
    buf.take (elfcoreNotesLen buf) = (noteRecords buf).flatten := by
  have parts := noteDelimiter.flatten_append_rest buf
  rw [elfcoreNotesLen_eq]
  have front := congrArg (List.take (noteRecords buf).flatten.length) parts
  exact front.symm.trans List.take_left

/-- `elfcore_notes_len` finds the longest front of a buffer that is a sequence of records. -/
theorem elfcoreNotesLen_longest (buf : List UInt8) :
    elfcoreNotesLen buf ≤ buf.length ∧ elfcoreNotesLen buf % 4 = 0 ∧
      IsNotes (buf.take (elfcoreNotesLen buf)) ∧
      (∀ m ≤ buf.length, IsNotes (buf.take m) → m ≤ elfcoreNotesLen buf) ∧
      elfcoreNotesLen (buf.take (elfcoreNotesLen buf)) = elfcoreNotesLen buf := by
  have notes := noteRecords_notes buf
  refine ⟨elfcoreNotesLen_le buf, ?_, ⟨noteRecords buf, notes, take_elfcoreNotesLen buf⟩, ?_, ?_⟩
  · rw [elfcoreNotesLen_eq]
    exact flatten_length_mod notes
  · rintro m fits ⟨records, each, front⟩
    have whole : buf = records.flatten ++ buf.drop m := by rw [← front, List.take_append_drop]
    have longest := Delimiter.length_flatten_le
      (fun record member => (isChunk_iff_isNote record).mpr (each record member)) whole
    rwa [← front, List.length_take_of_le fits, ← noteRecords, ← elfcoreNotesLen_eq] at longest
  · rw [elfcoreNotesLen_eq, take_elfcoreNotesLen, noteRecords_flatten notes, elfcoreNotesLen_eq]

def bufferRecords (src : Source) (r : Range) : List (List UInt8) :=
  if r.size > DUMP_NOTE_MAX then []
  else (sourceRead src r.size.toNat r.base).toOption.elim [] noteRecords

theorem bufferRecords_notes (src : Source) (r : Range) :
    ∀ record ∈ bufferRecords src r, IsNote record := by
  intro record member
  rw [bufferRecords] at member
  split at member
  · simp at member
  · cases read : sourceRead src r.size.toNat r.base with
    | error ret =>
        rw [read] at member
        simp [Except.toOption] at member
    | ok buf =>
        rw [read] at member
        exact noteRecords_notes buf record member

theorem bufferRecords_empty {src : Source} {r : Range} (none : r.size = 0) :
    (bufferRecords src r).flatten = [] := by
  rw [bufferRecords]
  split
  · rfl
  · cases read : sourceRead src r.size.toNat r.base with
    | error ret => rfl
    | ok buf =>
        have nothing : buf = [] := by
          rw [(sourceRead_ok read).1, none]
          rfl
        have short : noteDelimiter.size [] = 0 := rfl
        rw [nothing]
        exact congrArg List.flatten (Delimiter.chunks_of_size_zero short)

theorem readNote_records {src : Source} {granted : Bool} {live : ℕ} {r : Range} {note : ElfcoreNote}
    (read : readNote src granted live r = .ok note) :
    note.data.take note.len = (bufferRecords src r).flatten := by
  simp only [readNote] at read
  by_cases skipped : r.size = 0 ∨ r.size > DUMP_NOTE_MAX
  · rw [if_pos skipped] at read
    cases read
    rcases skipped with none | large
    · rw [bufferRecords_empty none]
      rfl
    · rw [bufferRecords, if_pos large]
      rfl
  · rw [if_neg skipped] at read
    rw [bufferRecords, if_neg fun large => skipped (Or.inr large)]
    split at read
    · simp at read
    · cases filled : sourceRead src r.size.toNat r.base with
      | error ret =>
          simp only [filled] at read
          cases read
          rfl
      | ok buf =>
          simp only [filled] at read
          change _ = (noteRecords buf).flatten
          rw [← take_elfcoreNotesLen]
          by_cases none : elfcoreNotesLen buf = 0
          · rw [if_pos none] at read
            cases read
            rw [none]
            rfl
          · rw [if_neg none] at read
            cases read
            rfl

theorem addNote_records {src : Source} {granted : Bool} {notes after : List ElfcoreNote} {r : Range}
    (added : addNote src granted notes r = .ok after) :
    noteBytes after = noteBytes notes ++ (bufferRecords src r).flatten := by
  simp only [addNote] at added
  split at added
  · simp at added
  · rename_i note read
    have records := readNote_records read
    cases added
    rw [← records]
    split
    · simp [noteBytes]
    · rename_i none
      rw [not_not.mp none, List.take_zero, List.append_nil]

theorem collectCpuNotes_records {src : Source} {granted : ℕ → Bool}
    {notes after : List ElfcoreNote} {ranges : List Range}
    (collected : collectCpuNotes src granted notes ranges = .ok after) :
    noteBytes after = noteBytes notes ++ (ranges.flatMap (bufferRecords src)).flatten := by
  induction ranges generalizing granted notes with
  | nil =>
      cases collected
      simp
  | cons r rest ih =>
      simp only [collectCpuNotes] at collected
      split at collected
      · simp at collected
      · rename_i middle added
        rw [ih collected, addNote_records added, List.flatMap_cons, List.flatten_append,
          List.append_assoc]

/-- The records of a dump: those of each CPU in order, then those of the kernel's own note. -/
def dumpRecords (src : Source) (vi : VmcoreInfo) : List (List UInt8) :=
  (vi.cpuNotes ++ [vi.vmcoreinfo]).flatMap (bufferRecords src)

theorem dumpRecords_notes (src : Source) (vi : VmcoreInfo) :
    ∀ record ∈ dumpRecords src vi, IsNote record := by
  intro record member
  obtain ⟨r, -, found⟩ := List.mem_flatMap.mp member
  exact bufferRecords_notes src r record found

theorem collectNotes_records {a : DumpAnswers} {src : Source} {vi : VmcoreInfo}
    {notes : List ElfcoreNote} (collected : collectNotes a src vi = .ok notes) :
    noteBytes notes = (dumpRecords src vi).flatten := by
  obtain ⟨cpus, found, added⟩ := collectNotes_ok collected
  rw [addNote_records added, collectCpuNotes_records found, dumpRecords, List.flatMap_append,
    List.flatten_append]
  simp [noteBytes]

def noteSegment (layout : ElfcoreLayout) (note : Phdr) : List UInt8 :=
  (layout.header.drop note.offset).take note.filesz

theorem elfcoreLayout_segment {granted hasPageOffset : Bool} {pageOffset : UInt64}
    {ranges : List Range} {notes : List ElfcoreNote} {layout : ElfcoreLayout} (held : Held notes)
    (laid : elfcoreLayout granted ranges notes hasPageOffset pageOffset = .ok layout) :
    ∃ note loads, readPhdrs layout.header = some (note :: loads) ∧ note.type = PT_NOTE ∧
      note.offset % 4 = 0 ∧ note.filesz = (noteBytes notes).length ∧
      noteSegment layout note = noteBytes notes := by
  obtain ⟨few, allocated, laid⟩ := elfcoreLayout_ok laid
  simp only [elfcoreLayout] at laid
  rw [if_neg (by omega), malloc_eq_true.mpr ⟨rfl, allocated⟩] at laid
  cases laid
  have count := length_layoutOffsets (headerLength (1 + ranges.length) notes) ranges
  generalize (layoutOffsets (headerLength (1 + ranges.length) notes) ranges).1 = offsets at count ⊢
  have number := @length_corePhdrs ranges notes hasPageOffset pageOffset offsets count
  have noteOff := noteOffset_toNat (show 1 + ranges.length < 2 ^ 16 by omega)
  have notesLen := notesLength_toNat held
  refine ⟨notePhdr (noteOffset (1 + ranges.length)) (notesLength notes),
    List.zipWith (loadPhdr hasPageOffset pageOffset) ranges offsets, ?_, rfl, ?_, notesLen, ?_⟩
  · have headers := @readPhdrs_header (corePhdrs hasPageOffset pageOffset ranges notes offsets)
      (by rw [number]; omega) (corePhdrs_fits _ _ _)
    rw [filledHeader, List.append_assoc, List.append_assoc]
    exact headers _
  · simp only [notePhdr, noteOff, EHDR_SIZE, PHDR_SIZE]
    omega
  · simp only [noteSegment, notePhdr, noteOff, notesLen]
    rw [← number]
    exact filledHeader_notes _ _ _

theorem addNote_succeeds (src : Source) {notes : List ElfcoreNote} (r : Range)
    (room : heldBytes notes + DUMP_NOTE_MAX.toNat < 2 ^ 63) :
    ∃ after, addNote src true notes r = .ok after ∧
      heldBytes after ≤ heldBytes notes + DUMP_NOTE_MAX.toNat := by
  by_cases skipped : r.size = 0 ∨ r.size > DUMP_NOTE_MAX
  · exact ⟨notes, by simp [addNote, readNote, skipped], by omega⟩
  · have small : r.size.toNat ≤ DUMP_NOTE_MAX.toNat :=
      UInt64.le_iff_toNat_le.mp (UInt64.not_lt.mp fun large => skipped (Or.inr large))
    have allocated : malloc true (heldBytes notes) r.size.toNat = true :=
      malloc_eq_true.mpr ⟨rfl, by omega⟩
    simp only [addNote, readNote, if_neg skipped, allocated, Bool.not_true, Bool.false_eq_true,
      if_false]
    cases read : sourceRead src r.size.toNat r.base with
    | error => exact ⟨notes, rfl, by omega⟩
    | ok buf =>
        have length := congrArg List.length (sourceRead_ok read).1
        rw [length_slice] at length
        simp only
        by_cases none : elfcoreNotesLen buf = 0
        · exact ⟨notes, by simp [none], by omega⟩
        · refine ⟨notes ++ [⟨buf, elfcoreNotesLen buf⟩], by simp [none], ?_⟩
          simp only [heldBytes, List.map_append, List.sum_append, List.map_cons, List.map_nil,
            List.sum_cons, List.sum_nil]
          omega

theorem collectCpuNotes_succeeds (src : Source) {granted : ℕ → Bool} {notes : List ElfcoreNote}
    {ranges : List Range} (memory : ∀ round, granted round = true)
    (room : heldBytes notes + ranges.length * DUMP_NOTE_MAX.toNat < 2 ^ 63) :
    ∃ after, collectCpuNotes src granted notes ranges = .ok after ∧
      heldBytes after ≤ heldBytes notes + ranges.length * DUMP_NOTE_MAX.toNat := by
  induction ranges generalizing granted notes with
  | nil => exact ⟨notes, rfl, by omega⟩
  | cons r rest ih =>
      rw [List.length_cons, Nat.succ_mul] at room ⊢
      obtain ⟨middle, added, held⟩ := addNote_succeeds src r (show heldBytes notes + _ < _ by omega)
      obtain ⟨after, collected, total⟩ := @ih (fun round => granted (round + 1)) middle
        (fun round => memory (round + 1)) (by omega)
      refine ⟨after, ?_, by omega⟩
      simp only [collectCpuNotes, memory 0, added]
      exact collected

theorem notes_built {a : DumpAnswers} (src : Source) {ranges : List Range} {vi : VmcoreInfo}
    (memory : a.notes = true ∧ (∀ round, a.cpuNotes round = true) ∧ a.vmcoreinfo = true ∧
      a.layout = true)
    (few : ranges.length ≤ 65534) (room : (vi.cpuNotes.length + 1) * DUMP_NOTE_MAX.toNat < 2 ^ 61) :
    ∃ notes layout, collectNotes a src vi = .ok notes ∧
      elfcoreLayout a.layout ranges notes vi.hasPageOffset vi.pageOffset = .ok layout := by
  obtain ⟨table, cpus, own, block⟩ := memory
  rw [Nat.succ_mul] at room
  have start : heldBytes [] = 0 := rfl
  obtain ⟨middle, collected, held⟩ := @collectCpuNotes_succeeds src a.cpuNotes [] vi.cpuNotes cpus
    (by omega)
  obtain ⟨notes, added, total⟩ := addNote_succeeds src vi.vmcoreinfo
    (show heldBytes middle + _ < _ by omega)
  have found : collectNotes a src vi = .ok notes := by
    simp only [collectNotes, table, Bool.not_true, Bool.false_eq_true, if_false, collected, own, added]
  have header := headerLength_toNat (collectNotes_held found)
    (show 1 + ranges.length < 2 ^ 16 by omega)
  have bytes := length_noteBytes_le notes
  simp only [headerEnd, EHDR_SIZE, PHDR_SIZE] at header
  have allocated : malloc a.layout (heldBytes notes)
      (headerLength (1 + ranges.length) notes).toNat = true :=
    malloc_eq_true.mpr ⟨block, by omega⟩
  have laid : ∃ layout,
      elfcoreLayout a.layout ranges notes vi.hasPageOffset vi.pageOffset = .ok layout := by
    simp only [elfcoreLayout, if_neg (show ¬ ranges.length > 65534 by omega), allocated,
      Bool.not_true, Bool.false_eq_true, if_false]
    exact ⟨_, rfl⟩
  obtain ⟨layout, laid⟩ := laid
  exact ⟨notes, layout, found, laid⟩

/-- What a reader finds in the PT_NOTE segment of a layout: the records of the buffers, each at
an aligned offset of the file, and nothing between, before or after them. -/
structure NotesRead (src : Source) (vi : VmcoreInfo) (layout : ElfcoreLayout) (note : Phdr) : Prop where
  type : note.type = PT_NOTE
  records : noteRecords (noteSegment layout note) = dumpRecords src vi
  whole : noteSegment layout note = (dumpRecords src vi).flatten
  length : (noteSegment layout note).length = note.filesz
  each : ∀ record ∈ dumpRecords src vi, IsNote record
  aligned : ∀ before after, dumpRecords src vi = before ++ after →
    (note.offset + before.flatten.length) % 4 = 0

theorem notes_read {a : DumpAnswers} {src : Source} {ranges : List Range} {vi : VmcoreInfo}
    {notes : List ElfcoreNote} {layout : ElfcoreLayout} (collected : collectNotes a src vi = .ok notes)
    (laid : elfcoreLayout a.layout ranges notes vi.hasPageOffset vi.pageOffset = .ok layout) :
    ∃ note loads, readPhdrs layout.header = some (note :: loads) ∧ NotesRead src vi layout note := by
  obtain ⟨note, loads, headers, type, offset, filesz, segment⟩ :=
    elfcoreLayout_segment (collectNotes_held collected) laid
  have each := dumpRecords_notes src vi
  have whole := segment.trans (collectNotes_records collected)
  refine ⟨note, loads, headers, type, ?_, whole, ?_, each, ?_⟩
  · rw [whole, noteRecords_flatten each]
  · rw [segment, filesz]
  · intro before after split
    have front := flatten_length_mod fun record (member : record ∈ before) =>
      each record (split ▸ List.mem_append_left after member)
    omega

/-- The notes of every buffer reach the dump whole, whatever the crashed kernel left there. -/
theorem notes_exact :
    (∀ buf : List UInt8, elfcoreNotesLen buf ≤ buf.length ∧ elfcoreNotesLen buf % 4 = 0 ∧
      IsNotes (buf.take (elfcoreNotesLen buf)) ∧
      (∀ m ≤ buf.length, IsNotes (buf.take m) → m ≤ elfcoreNotesLen buf) ∧
      elfcoreNotesLen (buf.take (elfcoreNotesLen buf)) = elfcoreNotesLen buf) ∧
    (∀ (a : DumpAnswers) (src : Source) (ranges : List Range) (vi : VmcoreInfo)
      (notes : List ElfcoreNote) (layout : ElfcoreLayout), collectNotes a src vi = .ok notes →
      elfcoreLayout a.layout ranges notes vi.hasPageOffset vi.pageOffset = .ok layout →
      ∃ note loads, readPhdrs layout.header = some (note :: loads) ∧
        NotesRead src vi layout note) ∧
    ∀ (a : DumpAnswers) (src : Source) (ranges : List Range) (vi : VmcoreInfo),
      (a.notes = true ∧ (∀ round, a.cpuNotes round = true) ∧ a.vmcoreinfo = true ∧
        a.layout = true) → ranges.length ≤ 65534 →
      (vi.cpuNotes.length + 1) * DUMP_NOTE_MAX.toNat < 2 ^ 61 →
      ∃ notes layout, collectNotes a src vi = .ok notes ∧
        elfcoreLayout a.layout ranges notes vi.hasPageOffset vi.pageOffset = .ok layout :=
  ⟨elfcoreNotesLen_longest, fun _ _ _ _ _ _ collected laid => notes_read collected laid,
    fun _ src _ _ memory few room => notes_built src memory few room⟩

def cpuNote : List UInt8 :=
  encodeFields [(4, 5), (4, 1), (4, 1)] ++ [67, 79, 82, 69, 0, 0, 0, 0, 7, 0, 0, 0]

def noteSource : Source where
  limit := 0x10000
  mem := fun a => cpuNote.getD a 0
  mmap := fun _ _ => 0

def noteInfo : VmcoreInfo where
  hasPageOffset := false
  pageOffset := 0
  vmcoreinfo := ⟨0, 24⟩
  cpuNotes := [⟨0, 64⟩, ⟨0, 20⟩, ⟨0, 0x200000⟩]

/-- The buffer with room to spare and the exact one give the note, the short and the large none. -/
theorem notes_exact_cpu : ∃ layout note loads,
    readPhdrs layout.header = some (note :: loads) ∧ NotesRead noteSource noteInfo layout note ∧
      dumpRecords noteSource noteInfo = [cpuNote, cpuNote] := by
  obtain ⟨-, read, built⟩ := notes_exact
  obtain ⟨notes, layout, collected, laid⟩ :=
    built (sampleDump true []) noteSource [] noteInfo ⟨rfl, fun _ => rfl, rfl, rfl⟩ (by decide) (by decide)
  obtain ⟨note, loads, headers, found⟩ := read _ _ _ _ _ _ collected laid
  exact ⟨layout, note, loads, headers, found, by decide +kernel⟩

end Kmorph
