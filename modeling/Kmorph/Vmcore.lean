import Kmorph.Elfcore

/-!
What a reader of a crash dump finds in it: the program headers, the memory of
each range at its offset and zeros everywhere else, the same in a regular file
and in a stream.
-/

namespace Kmorph

open Extents Records

def coreImage (mem : ℕ → UInt8) (ranges : List Range) (layout : ElfcoreLayout) : List UInt8 :=
  placeAll 0 true (List.replicate layout.total.toNat 0) (corePieces mem ranges layout)

/-- The steps of a dump that has written the whole core. -/
structure CoreWritten (src : Source) (ranges : List Range) (layout : ElfcoreLayout)
    (s headed copied after : Sink) : Prop where
  header : sinkWrite s layout.header 0 = some (0, headed)
  ranges : copyRanges src (ranges.zip layout.offsets) headed = some (0, copied)
  padded : if copied.seekable = false ∧ copied.pos < layout.total then
    sinkWrite copied [] layout.total = some (0, after) else after = copied

theorem writeCore_written {src : Source} {ranges : List Range} {layout : ElfcoreLayout}
    {s after : Sink} (done : writeCore src ranges layout s = some (0, after)) :
    ∃ headed copied, CoreWritten src ranges layout s headed copied after := by
  simp only [writeCore] at done
  split at done
  · simp at done
  · rename_i ret headed header
    split at done
    · rename_i failed
      exact absurd (congrArg Prod.fst (Option.some.inj done)) failed
    · rename_i succeeded
      rw [not_not.mp succeeded] at header
      split at done
      · simp at done
      · rename_i ret copied copy
        by_cases zero : ret = 0
        · subst zero
          refine ⟨headed, copied, header, copy, ?_⟩
          simp only [true_and] at done
          split at done
          · rename_i short
            rwa [if_pos short]
          · rename_i full
            rw [if_neg full]
            exact (congrArg Prod.snd (Option.some.inj done)).symm
        · rw [if_neg (fun both => zero both.1)] at done
          exact absurd (congrArg Prod.fst (Option.some.inj done)) zero

/-- A sink as `open_sink` hands it over. -/
structure Fresh (s : Sink) (total : UInt64) : Prop where
  pos : s.pos = 0
  out : s.out = if s.seekable then List.replicate total.toNat 0 else []

theorem openSink_fresh {a : DumpAnswers} {total : UInt64} (opened : (openSink a total).1 = 0) :
    Fresh (openSink a total).2 total := by
  simp only [openSink] at opened ⊢
  split at opened
  · contradiction
  · rename_i notFailed
    rw [if_neg notFailed]
    split at opened
    · rename_i stream
      rw [if_pos stream]
      refine ⟨rfl, ?_⟩
      rw [Bool.not_eq_true'] at stream
      simp [stream]
    · rename_i regular
      rw [if_neg regular]
      split at opened
      · contradiction
      · rename_i truncated
        rw [if_neg truncated]
        refine ⟨rfl, ?_⟩
        simp only [Bool.not_eq_true', Bool.not_eq_false] at regular
        simp [regular]

theorem Fresh.clear {s : Sink} {total : UInt64} (fresh : Fresh s total) :
    Clear s 0 total.toNat := by
  have out := fresh.out
  refine ⟨?_, total.toNat_lt, ?_, ?_⟩
  · intro sequential
    rw [out, fresh.pos, sequential]
    rfl
  · intro seek
    rw [out, seek, if_pos rfl]
    refine ⟨List.length_replicate, ?_⟩
    intro i _ inside
    rw [List.getD_eq_getElem _ _ (by rwa [List.length_replicate]), List.getElem_replicate]
  · intro sequential
    rw [out, sequential]
    simp

section Written

variable {src : Source} {ranges : List Range} {notes : List ElfcoreNote} {vi : VmcoreInfo}
  {layout : ElfcoreLayout} {s headed copied after : Sink}

/-- The header and the ranges, before a stream is padded to its end. -/
theorem CoreWritten.placed (fresh : Fresh s layout.total)
    (laid : CoreLayout src.mem ranges notes vi layout)
    (proper : ∀ load ∈ ranges.zip layout.offsets, load.1.size ≠ 0 ∧
      load.1.base.toNat + load.1.size.toNat < 2 ^ 64)
    (written : CoreWritten src ranges layout s headed copied after) :
    copied.seekable = s.seekable ∧ Tracks copied ∧
      copied.out = placeAll 0 s.seekable s.out (corePieces src.mem ranges layout) := by
  obtain ⟨behind, rest⟩ := laid.ordered
  rw [Nat.zero_add] at rest
  have before : (0 : UInt64).toNat + layout.header.length ≤ layout.total.toNat := by
    rw [UInt64.toNat_zero, Nat.zero_add]
    exact rest.le
  have room := fresh.clear.room (Nat.zero_le _) before
  have header := sinkWrite_done room.tracks room.bound room.fits written.header
  have next := fresh.clear.next (Nat.zero_le _) before header
  rw [UInt64.toNat_zero, Nat.zero_add] at next
  obtain ⟨kind, tracks, out⟩ := copyRanges_done next rest proper written.ranges
  refine ⟨kind.trans header.seekable, tracks, ?_⟩
  rw [out, header.seekable, header.out]
  rfl

/-- A stream ends with blanks up to the total. -/
theorem CoreWritten.streamed (written : CoreWritten src ranges layout s headed copied after)
    (sequential : copied.seekable = false) (tracks : Tracks copied) :
    after.out =
      copied.out ++ List.replicate (layout.total.toNat - copied.out.length) 0 := by
  have padded := written.padded
  have position := tracks sequential
  split at padded
  · rename_i lacking
    have whole : copied.out.length ≤ layout.total.toNat := by
      have short := UInt64.lt_iff_toNat_lt.mp lacking.2
      omega
    have fits : Fits copied.seekable copied.out layout.total.toNat ([] : List UInt8).length := by
      rw [sequential]
      exact whole
    have bound : layout.total.toNat + ([] : List UInt8).length < 2 ^ 64 := layout.total.toNat_lt
    have last := sinkWrite_done tracks bound fits padded
    rw [last.out, sequential]
    simp [place, appendAt]
  · rename_i full
    have reached : layout.total.toNat ≤ copied.out.length := by
      have stop : ¬ copied.pos < layout.total := fun short => full ⟨sequential, short⟩
      rw [UInt64.lt_iff_toNat_lt] at stop
      omega
    rw [padded, Nat.sub_eq_zero_of_le reached]
    simp

theorem CoreWritten.image (fresh : Fresh s layout.total)
    (laid : CoreLayout src.mem ranges notes vi layout)
    (proper : ∀ load ∈ ranges.zip layout.offsets, load.1.size ≠ 0 ∧
      load.1.base.toNat + load.1.size.toNat < 2 ^ 64)
    (written : CoreWritten src ranges layout s headed copied after) :
    after.out = coreImage src.mem ranges layout := by
  obtain ⟨kind, tracks, out⟩ := written.placed fresh laid proper
  cases seek : s.seekable with
  | true =>
      have padded := written.padded
      rw [if_neg (by simp [kind, seek])] at padded
      rw [padded, out, fresh.out, seek]
      rfl
  | false =>
      have blank : s.out = [] := by
        rw [fresh.out, seek]
        rfl
      have file := @placeAll_sequential _ 0 [] _ _ _ laid.ordered (Nat.le_refl 0)
      simp only [List.length_nil, Nat.sub_zero, List.nil_append] at file
      rw [written.streamed (kind.trans seek) tracks, out, seek, blank, file]
      rfl

end Written

theorem dumpVmcore_written {a : DumpAnswers} {src : Source} {ranges : List Range} {vi : VmcoreInfo}
    {out : List UInt8} (done : dumpVmcore a src ranges vi = some (0, out)) :
    ∃ notes layout after, collectNotes a src vi = .ok notes ∧
      elfcoreLayout a.layout ranges notes vi.hasPageOffset vi.pageOffset = .ok layout ∧
      (openSink a layout.total).1 = 0 ∧
      writeCore src ranges layout (openSink a layout.total).2 = some (0, after) ∧
      out = after.out := by
  simp only [dumpVmcore] at done
  split at done
  · rename_i failed
    exact absurd (congrArg Prod.fst (Option.some.inj done)) failed
  · split at done
    · rename_i ret failed
      have zero := congrArg Prod.fst (Option.some.inj done)
      exact absurd zero (collectNotes_error failed)
    · rename_i notes collected
      split at done
      · rename_i ret failed
        have zero := congrArg Prod.fst (Option.some.inj done)
        exact absurd zero (elfcoreLayout_error failed)
      · rename_i layout laid
        split at done
        · rename_i failed
          exact absurd (congrArg Prod.fst (Option.some.inj done)) failed
        · rename_i opened
          split at done
          · simp [ENOMEM] at done
          · obtain ⟨⟨ret, after⟩, wrote, same⟩ := Option.map_eq_some_iff.mp done
            have zero : ret = 0 := by
              have result := congrArg Prod.fst same
              simp only at result
              split at result
              · omega
              · split at result
                · omega
                · exact result
            rw [zero] at wrote
            exact ⟨notes, layout, after, collected, laid, not_not.mp opened, wrote,
              (congrArg Prod.snd same).symm⟩

theorem dumpVmcore_image {a : DumpAnswers} {src : Source} {ranges : List Range} {vi : VmcoreInfo}
    {out : List UInt8} (normal : Normal ranges)
    (done : dumpVmcore a src ranges vi = some (0, out)) :
    ∃ notes layout, collectNotes a src vi = .ok notes ∧
      elfcoreLayout a.layout ranges notes vi.hasPageOffset vi.pageOffset = .ok layout ∧
      CoreLayout src.mem ranges notes vi layout ∧ out = coreImage src.mem ranges layout := by
  obtain ⟨notes, layout, after, collected, laid, opened, wrote, rfl⟩ := dumpVmcore_written done
  obtain ⟨headed, copied, written⟩ := writeCore_written wrote
  have proper : ∀ load ∈ ranges.zip layout.offsets, load.1.size ≠ 0 ∧
      load.1.base.toNat + load.1.size.toNat < 2 ^ 64 := by
    intro load member
    have inRanges := (List.of_mem_zip member).1
    refine ⟨fun zero => ?_, normal.noWrap _ inRanges⟩
    have := normal.nonempty _ inRanges
    simp [zero] at this
  have within := copyRanges_within proper written.ranges
  have below : ∀ r ∈ ranges, r.base.toNat + r.size.toNat ≤ OFFSET_MAX := by
    intro r member
    rw [← List.map_fst_zip (Nat.le_of_eq (elfcoreLayout_count laid).symm)] at member
    obtain ⟨load, loadMember, rfl⟩ := List.mem_map.mp member
    exact within load loadMember
  have sizes := normal.sum_sizes_le (fun _ _ => Nat.zero_le _) below (Nat.zero_le _)
  have core := elfcoreLayout_laid src.mem (collectNotes_held collected)
    (by simp only [OFFSET_MAX] at sizes; omega) laid
  exact ⟨notes, layout, collected, laid, core,
    written.image (openSink_fresh opened) core proper⟩

/-- Where the headers, the notes and the loads of a core lie in its file. -/
def extents (note : Phdr) (loads : List Phdr) : List (ℕ × ℕ) :=
  (0, EHDR_SIZE + (1 + loads.length) * PHDR_SIZE) ::
    (note :: loads).map fun ph => (ph.offset, ph.offset + ph.filesz)

def IsLoad (load : Phdr) (r : Range) : Prop :=
  load.type = PT_LOAD ∧ load.paddr = r.base.toNat ∧ load.filesz = r.size.toNat ∧
    load.memsz = r.size.toNat ∧ load.offset % ELFCORE_PAGE.toNat = 0

/-- A core file of these ranges of the memory. -/
structure CoreFile (mem : ℕ → UInt8) (ranges : List Range) (notes : List UInt8) (note : Phdr)
    (loads : List Phdr) (file : List UInt8) : Prop where
  headers : readPhdrs file = some (note :: loads)
  noteType : note.type = PT_NOTE
  noteData : (file.drop note.offset).take note.filesz = notes
  each : List.Forall₂ IsLoad loads ranges
  apart : (extents note loads).Pairwise fun first second => first.2 ≤ second.1
  memory : ∀ load ∈ loads, ∀ a, load.paddr ≤ a → a < load.paddr + load.memsz →
    file[load.offset + (a - load.paddr)]? = some (mem a)
  zero : ∀ i < file.length, (∀ extent ∈ extents note loads, ¬ (extent.1 ≤ i ∧ i < extent.2)) →
    file[i]? = some 0

section Image

variable {mem : ℕ → UInt8} {ranges : List Range} {notes : List ElfcoreNote} {vi : VmcoreInfo}
  {layout : ElfcoreLayout}

theorem getElem?_eq_getD {file : List UInt8} {i : ℕ} (inside : i < file.length) :
    file[i]? = some (file.getD i 0) := by
  rw [List.getElem?_eq_getElem inside, List.getD_eq_getElem _ _ inside]

theorem CoreLayout.inFile (laid : CoreLayout mem ranges notes vi layout) :
    InOrder 0 (corePieces mem ranges layout)
      (List.replicate layout.total.toNat (0 : UInt8)).length := by
  rw [List.length_replicate]
  exact laid.ordered

theorem length_coreImage (laid : CoreLayout mem ranges notes vi layout) :
    (coreImage mem ranges layout).length = layout.total.toNat := by
  rw [coreImage, (placeAll_outside laid.inFile).1, List.length_replicate]

theorem getD_coreImage_inside (laid : CoreLayout mem ranges notes vi layout)
    {piece : ℕ × List UInt8} (member : piece ∈ corePieces mem ranges layout) {i : ℕ}
    (inside : inPiece piece i) :
    (coreImage mem ranges layout).getD i 0 = piece.2.getD (i - piece.1) 0 :=
  placeAll_inside laid.inFile member inside

theorem getD_coreImage_outside (laid : CoreLayout mem ranges notes vi layout) {i : ℕ}
    (outside : ∀ piece ∈ corePieces mem ranges layout, ¬ inPiece piece i) :
    (coreImage mem ranges layout).getD i 0 = 0 := by
  rw [coreImage, (placeAll_outside laid.inFile).2 i outside]
  rw [List.getD_eq_getElem?_getD, List.getElem?_getD_replicate_default_eq]

theorem coreImage_header (laid : CoreLayout mem ranges notes vi layout) :
    ∃ rest, coreImage mem ranges layout = layout.header ++ rest := by
  have length := length_coreImage laid
  have within : layout.header.length ≤ layout.total.toNat := by
    have := laid.ordered.2.le
    omega
  refine ⟨(coreImage mem ranges layout).drop layout.header.length, ?_⟩
  have start : (coreImage mem ranges layout).take layout.header.length = layout.header := by
    apply ext_getD 0
    · rw [List.length_take]
      omega
    · intro i inside
      rw [List.length_take] at inside
      have cell := getD_coreImage_inside laid (List.mem_cons_self ..)
        (show inPiece (0, layout.header) i from ⟨Nat.zero_le _, by simp only; omega⟩)
      simp only [Nat.sub_zero] at cell
      rw [← cell, List.getD_eq_getElem?_getD, List.getD_eq_getElem?_getD,
        List.getElem?_take_of_lt (by omega)]
  exact (start ▸ List.take_append_drop _ _).symm

theorem corePhdrs_fits (hasPageOffset : Bool) (pageOffset : UInt64) (offsets : List UInt64) :
    ∀ ph ∈ corePhdrs hasPageOffset pageOffset ranges notes offsets, ph.Fits := by
  intro ph member
  rcases List.mem_cons.mp member with rfl | load
  · have := (noteOffset (1 + ranges.length)).toNat_lt
    have := (notesLength notes).toNat_lt
    simp only [Phdr.Fits, Phdr.fields, notePhdr, PT_NOTE, List.forall_mem_cons, List.not_mem_nil,
      false_imp_iff, implies_true, and_true]
    omega
  · obtain ⟨i, lt, rfl⟩ := List.getElem_of_mem load
    rw [List.getElem_zipWith]
    simp only [Phdr.Fits, Phdr.fields, loadPhdr, PT_LOAD, List.forall_mem_cons, List.not_mem_nil,
      false_imp_iff, implies_true, and_true]
    refine ⟨by decide, by decide, UInt64.toNat_lt _, UInt64.toNat_lt _, UInt64.toNat_lt _,
      UInt64.toNat_lt _, UInt64.toNat_lt _, by decide⟩

theorem coreImage_headers (laid : CoreLayout mem ranges notes vi layout) :
    readPhdrs (coreImage mem ranges layout) =
      some (corePhdrs vi.hasPageOffset vi.pageOffset ranges notes layout.offsets) := by
  obtain ⟨padding, header⟩ := laid.header
  obtain ⟨rest, image⟩ := coreImage_header laid
  have few := laid.few
  have fits := @readPhdrs_header
    (corePhdrs vi.hasPageOffset vi.pageOffset ranges notes layout.offsets)
    (by rw [length_corePhdrs laid.count]; omega) (corePhdrs_fits _ _ _)
    (noteBytes notes ++ (List.replicate padding 0 ++ rest))
  rw [image, header, filledHeader]
  simpa only [List.append_assoc] using fits

theorem isLoad_zipWith {hasPageOffset : Bool} {pageOffset : UInt64} {offsets : List UInt64}
    (count : offsets.length = ranges.length) (pages : ∀ off ∈ offsets, off.toNat % 4096 = 0) :
    List.Forall₂ IsLoad (List.zipWith (loadPhdr hasPageOffset pageOffset) ranges offsets) ranges := by
  induction ranges generalizing offsets with
  | nil => exact List.Forall₂.nil
  | cons r rest ih =>
      cases offsets with
      | nil => simp at count
      | cons off offsets =>
          refine List.Forall₂.cons ⟨rfl, rfl, rfl, rfl, pages off (by simp)⟩ ?_
          exact ih (by simpa using count) fun other member => pages other (by simp [member])

/-- The extents of the loads are those of the pieces behind the header. -/
theorem extents_loads (mem : ℕ → UInt8) (hasPageOffset : Bool) (pageOffset : UInt64)
    (ranges : List Range) (offsets : List UInt64) :
    (List.zipWith (loadPhdr hasPageOffset pageOffset) ranges offsets).map
        (fun ph => (ph.offset, ph.offset + ph.filesz)) =
      ((ranges.zip offsets).map (piece mem)).map fun piece => (piece.1, piece.1 + piece.2.length) := by
  simp [List.zip, List.map_zipWith, loadPhdr, piece]

theorem CoreLayout.headerEnd_le (laid : CoreLayout mem ranges notes vi layout) :
    headerEnd (1 + ranges.length) notes ≤ layout.header.length := by
  obtain ⟨padding, header⟩ := laid.header
  rw [header, List.length_append, length_filledHeader, length_corePhdrs laid.count]
  omega

theorem coreImage_noteData (laid : CoreLayout mem ranges notes vi layout) :
    ((coreImage mem ranges layout).drop (EHDR_SIZE + (1 + ranges.length) * PHDR_SIZE)).take
      (noteBytes notes).length = noteBytes notes := by
  obtain ⟨padding, header⟩ := laid.header
  obtain ⟨rest, image⟩ := coreImage_header laid
  rw [image, header, List.append_assoc, ← length_corePhdrs laid.count]
  exact filledHeader_notes _ _ _

theorem coreImage_apart (held : Held notes) (laid : CoreLayout mem ranges notes vi layout) :
    (extents (notePhdr (noteOffset (1 + ranges.length)) (notesLength notes))
      (List.zipWith (loadPhdr vi.hasPageOffset vi.pageOffset) ranges layout.offsets)).Pairwise
      fun first second => first.2 ≤ second.1 := by
  have few := laid.few
  have noteOff := noteOffset_toNat (show 1 + ranges.length < 2 ^ 16 by omega)
  have notesLen := notesLength_toNat held
  have headed := laid.headerEnd_le
  have behind : ∀ extent ∈ ((ranges.zip layout.offsets).map (piece mem)).map
      fun piece => (piece.1, piece.1 + piece.2.length),
      headerEnd (1 + ranges.length) notes ≤ extent.1 := by
    intro extent member
    obtain ⟨piece, pieceMember, rfl⟩ := List.mem_map.mp member
    have := (laid.ordered.2.bounds pieceMember).1
    simp only
    omega
  have count : (List.zipWith (loadPhdr vi.hasPageOffset vi.pageOffset) ranges
      layout.offsets).length = ranges.length := by
    rw [List.length_zipWith, laid.count, Nat.min_self]
  rw [extents, List.map_cons, extents_loads mem, count]
  refine List.Pairwise.cons ?_ (List.Pairwise.cons ?_ ?_)
  · intro extent member
    rcases List.mem_cons.mp member with rfl | load
    · simp only [notePhdr]
      omega
    · have := behind extent load
      simp only [headerEnd] at this ⊢
      omega
  · intro extent load
    have := behind extent load
    simp only [notePhdr, headerEnd] at this ⊢
    omega
  · rw [List.pairwise_map]
    exact laid.ordered.2.pairwise

theorem coreImage_memory (laid : CoreLayout mem ranges notes vi layout) {load : Phdr}
    (member : load ∈ List.zipWith (loadPhdr vi.hasPageOffset vi.pageOffset) ranges layout.offsets)
    {a : ℕ} (lower : load.paddr ≤ a) (upper : a < load.paddr + load.memsz) :
    (coreImage mem ranges layout)[load.offset + (a - load.paddr)]? = some (mem a) := by
  rw [← List.map_uncurry_zip_eq_zipWith] at member
  obtain ⟨⟨r, off⟩, inRanges, rfl⟩ := List.mem_map.mp member
  simp only [Function.uncurry, loadPhdr] at lower upper ⊢
  have isPiece : piece mem (r, off) ∈ (ranges.zip layout.offsets).map (piece mem) :=
    List.mem_map_of_mem inRanges
  have inFile := (laid.ordered.2.bounds isPiece).2
  have inside : inPiece (piece mem (r, off)) (off.toNat + (a - r.base.toNat)) := by
    simp only [inPiece, piece, length_slice]
    omega
  simp only [piece, length_slice] at inFile
  rw [getElem?_eq_getD (by rw [length_coreImage laid]; omega),
    getD_coreImage_inside laid (List.mem_cons_of_mem _ isPiece) inside]
  simp only [piece]
  rw [Nat.add_sub_cancel_left, getD_slice _ _ (by omega), Nat.add_sub_cancel' lower]

theorem coreImage_zero (held : Held notes) (laid : CoreLayout mem ranges notes vi layout) {i : ℕ}
    (inside : i < (coreImage mem ranges layout).length)
    (outside : ∀ extent ∈ extents (notePhdr (noteOffset (1 + ranges.length)) (notesLength notes))
      (List.zipWith (loadPhdr vi.hasPageOffset vi.pageOffset) ranges layout.offsets),
      ¬ (extent.1 ≤ i ∧ i < extent.2)) :
    (coreImage mem ranges layout)[i]? = some 0 := by
  rw [getElem?_eq_getD inside]
  congr 1
  by_cases header : i < layout.header.length
  · -- Neither in the headers nor in the notes, so in the padding up to the first page.
    have few := laid.few
    have noteOff := noteOffset_toNat (show 1 + ranges.length < 2 ^ 16 by omega)
    have notesLen := notesLength_toNat held
    have notHeaders := outside _ (List.mem_cons_self ..)
    have notNotes := outside _ (List.mem_cons_of_mem _ (List.mem_cons_self ..))
    simp only [List.length_zipWith, laid.count, Nat.min_self] at notHeaders
    simp only [notePhdr] at notNotes
    have cell := getD_coreImage_inside laid (List.mem_cons_self ..)
      (show inPiece (0, layout.header) i from ⟨Nat.zero_le _, by simp only; omega⟩)
    obtain ⟨padding, filled⟩ := laid.header
    have past : headerEnd (1 + ranges.length) notes ≤ i := by
      simp only [headerEnd]
      omega
    simp only [Nat.sub_zero] at cell
    rw [cell, filled, List.getD_append_right, length_filledHeader]
    · rw [List.getD_eq_getElem?_getD, List.getElem?_getD_replicate_default_eq]
    · rw [length_filledHeader, length_corePhdrs laid.count]
      exact past
  · apply getD_coreImage_outside laid
    intro other member
    rcases List.mem_cons.mp member with rfl | load
    · simp only [inPiece]
      omega
    · refine outside (other.1, other.1 + other.2.length) ?_
      rw [extents, List.map_cons, extents_loads mem]
      exact List.mem_cons_of_mem _ (List.mem_cons_of_mem _ (List.mem_map_of_mem load))

theorem coreImage_coreFile (held : Held notes) (laid : CoreLayout mem ranges notes vi layout) :
    CoreFile mem ranges (noteBytes notes)
      (notePhdr (noteOffset (1 + ranges.length)) (notesLength notes))
      (List.zipWith (loadPhdr vi.hasPageOffset vi.pageOffset) ranges layout.offsets)
      (coreImage mem ranges layout) := by
  have few := laid.few
  have noteOff := noteOffset_toNat (show 1 + ranges.length < 2 ^ 16 by omega)
  have notesLen := notesLength_toNat held
  refine ⟨coreImage_headers laid, rfl, ?_, isLoad_zipWith laid.count laid.pages,
    coreImage_apart held laid, fun load member a => coreImage_memory laid member,
    fun i => coreImage_zero held laid⟩
  simp only [notePhdr, noteOff, notesLen]
  exact coreImage_noteData laid

end Image

/-- A dump that succeeds leaves a core file of the ranges, as long as its layout says. -/
theorem dumpVmcore_coreFile {a : DumpAnswers} {src : Source} {ranges : List Range} {vi : VmcoreInfo}
    {file : List UInt8} (normal : Normal ranges)
    (done : dumpVmcore a src ranges vi = some (0, file)) :
    ∃ notes layout note loads, collectNotes a src vi = .ok notes ∧
      elfcoreLayout a.layout ranges notes vi.hasPageOffset vi.pageOffset = .ok layout ∧
      file.length = layout.total.toNat ∧
      CoreFile src.mem ranges (noteBytes notes) note loads file := by
  obtain ⟨notes, layout, collected, laid, core, rfl⟩ := dumpVmcore_image normal done
  exact ⟨notes, layout, _, _, collected, laid, length_coreImage core,
    coreImage_coreFile (collectNotes_held collected) core⟩

def sampleSource : Source where
  limit := 0x10000
  mem := UInt8.ofNat
  mmap := fun _ _ => 0

def sampleInfo : VmcoreInfo where
  hasPageOffset := true
  pageOffset := 0xffff888000000000
  vmcoreinfo := ⟨0x100, 0x10⟩
  cpuNotes := [⟨0x10c, 0x20⟩]

def sampleDump (regular : Bool) (writes : List WriteAnswer) : DumpAnswers where
  sourceOpened := 0
  notes := true
  cpuNotes := fun _ => true
  vmcoreinfo := true
  layout := true
  sinkOpened := 0
  regular := regular
  truncated := 0
  buffer := true
  writes := writes
  synced := 0
  closed := 0

def sampleRanges : List Range := [⟨0x1000, 5⟩, ⟨0x3000, 0x1001⟩]

theorem sampleRanges_normal : Normal sampleRanges :=
  ⟨by decide, by decide, by decide⟩

theorem sampleFile_done :
    ∃ file, dumpVmcore (sampleDump true [.wrote 4096, .interrupted, .wrote 5, .wrote 4090, .wrote 9])
      sampleSource sampleRanges sampleInfo = some (0, file) := by
  have result : (dumpVmcore (sampleDump true [.wrote 4096, .interrupted, .wrote 5, .wrote 4090,
      .wrote 9]) sampleSource sampleRanges sampleInfo).map Prod.fst = some 0 := by
    decide +kernel
  obtain ⟨⟨ret, file⟩, done, rfl⟩ := Option.map_eq_some_iff.mp result
  exact ⟨file, done⟩

theorem dumpVmcore_coreFile_sample : ∃ file notes layout note loads,
    dumpVmcore (sampleDump true [.wrote 4096, .interrupted, .wrote 5, .wrote 4090, .wrote 9])
      sampleSource sampleRanges sampleInfo = some (0, file) ∧
    elfcoreLayout true sampleRanges notes sampleInfo.hasPageOffset sampleInfo.pageOffset =
      .ok layout ∧
    file.length = layout.total.toNat ∧
    CoreFile sampleSource.mem sampleRanges (noteBytes notes) note loads file := by
  obtain ⟨file, done⟩ := sampleFile_done
  obtain ⟨notes, layout, note, loads, -, laid, length, core⟩ :=
    dumpVmcore_coreFile sampleRanges_normal done
  exact ⟨file, notes, layout, note, loads, done, laid, length, core⟩

/-- A dump sends down a stream the bytes it leaves in a regular file, however the writes of either
are split. -/
theorem dumpVmcore_stream_eq_file {file stream : DumpAnswers} {src : Source} {ranges : List Range}
    {vi : VmcoreInfo} {held sent : List UInt8} (normal : Normal ranges)
    (_regular : file.regular = true) (_sequential : stream.regular = false)
    (stored : dumpVmcore file src ranges vi = some (0, held))
    (streamed : dumpVmcore stream src ranges vi = some (0, sent)) : sent = held := by
  obtain ⟨notes, layout, collected, laid, -, fileImage⟩ := dumpVmcore_image normal stored
  obtain ⟨others, otherLayout, recollected, relaid, -, streamImage⟩ :=
    dumpVmcore_image normal streamed
  rw [collectNotes_unique collected recollected] at laid
  have sameLayout := (elfcoreLayout_ok laid).2.2.symm.trans (elfcoreLayout_ok relaid).2.2
  rw [fileImage, streamImage, Except.ok.inj sameLayout]

theorem dumpVmcore_stream_eq_file_sample : ∃ held sent,
    dumpVmcore (sampleDump true [.wrote 4096, .interrupted, .wrote 5, .wrote 4090, .wrote 9])
      sampleSource sampleRanges sampleInfo = some (0, held) ∧
    dumpVmcore (sampleDump false [.wrote 4000, .wrote 96, .wrote 5, .wrote 4096, .wrote 4097,
      .interrupted, .wrote 4095]) sampleSource sampleRanges sampleInfo = some (0, sent) ∧
    sent = held := by
  have result : (dumpVmcore (sampleDump false [.wrote 4000, .wrote 96, .wrote 5, .wrote 4096,
      .wrote 4097, .interrupted, .wrote 4095]) sampleSource sampleRanges sampleInfo).map Prod.fst =
      some 0 := by
    decide +kernel
  obtain ⟨⟨ret, sent⟩, streamed, rfl⟩ := Option.map_eq_some_iff.mp result
  obtain ⟨held, stored⟩ := sampleFile_done
  exact ⟨held, sent, stored, streamed,
    dumpVmcore_stream_eq_file sampleRanges_normal rfl rfl stored streamed⟩

end Kmorph
