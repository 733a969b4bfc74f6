import Kmorph.ImageCore

/-!
When the readers of an ELF image stay inside its bytes. The bound of
`vmlinux_elf_size` is checked with the size of a header and used with the stride the
image names, and its sums wrap; the conditions below say which images that harms.
-/

namespace Kmorph

open Records

section Reads

variable {buf : List UInt8} {eh : Ehdr} {off width : ℕ}

structure HasEhdr (buf : List UInt8) (eh : Ehdr) : Prop where
  length : EHDR_SIZE ≤ buf.length
  ident : eh.ident = ELF64_IDENT
  decoded : eh = decodeEhdr buf

structure Ehdr.Fits (eh : Ehdr) : Prop where
  phoff : eh.phoff < 2 ^ 64
  shoff : eh.shoff < 2 ^ 64
  phentsize : eh.phentsize < 2 ^ 16
  phnum : eh.phnum < 2 ^ 16
  shentsize : eh.shentsize < 2 ^ 16
  shnum : eh.shnum < 2 ^ 16

theorem decodeEhdr_fits (buf : List UInt8) : (decodeEhdr buf).Fits :=
  ⟨field_lt buf 32 8, field_lt buf 40 8, field_lt buf 54 2, field_lt buf 56 2, field_lt buf 58 2,
    field_lt buf 60 2⟩

theorem wrap_of_lt {n : ℕ} (fits : n < 2 ^ 64) : wrap n = n := Nat.mod_eq_of_lt fits

theorem readField_inside (inside : off + width ≤ buf.length) :
    readField buf off width = some (field buf off width) := by
  rw [readField, if_pos inside]

theorem readField_outside (outside : ¬ off + width ≤ buf.length) : readField buf off width = none := by
  rw [readField, if_neg outside]

end Reads

section Sizes

variable {buf : List UInt8} {eh : Ehdr} {left i stop : ℕ}

def segmentEnd (buf : List UInt8) (eh : Ehdr) (i : ℕ) : ℕ :=
  field buf (eh.phoff + i * eh.phentsize + 8) 8 + field buf (eh.phoff + i * eh.phentsize + 32) 8

def Inside (buf : List UInt8) (eh : Ehdr) (i : ℕ) : Prop :=
  eh.phoff + (i + 1) * PHDR_SIZE ≤ buf.length → eh.phoff + i * eh.phentsize + 40 ≤ buf.length

theorem wrap_table {stride : ℕ} (near : eh.phoff < 2 ^ 63) (few : i < 2 ^ 17) (short : stride < 2 ^ 16) :
    wrap (eh.phoff + i * stride) = eh.phoff + i * stride := by
  have : i * stride ≤ 2 ^ 17 * 2 ^ 16 := Nat.mul_le_mul few.le short.le
  exact wrap_of_lt (by omega)

theorem elfSizeLoop_turn (near : eh.phoff < 2 ^ 63) (fits : eh.Fits) (few : i < 2 ^ 16)
    (checked : eh.phoff + (i + 1) * PHDR_SIZE ≤ buf.length)
    (inside : eh.phoff + i * eh.phentsize + 40 ≤ buf.length) :
    elfSizeLoop buf eh (left + 1) i stop =
      elfSizeLoop buf eh left (i + 1) (max stop (wrap (segmentEnd buf eh i))) := by
  rw [elfSizeLoop, wrap_table near (by omega) (by decide), if_neg (by omega)]
  simp only [wrap_table near (by omega : i < 2 ^ 17) fits.phentsize]
  rw [readField_inside (by omega), readField_inside (by omega)]
  rfl

theorem elfSizeLoop_stop (near : eh.phoff < 2 ^ 63) (few : i < 2 ^ 16)
    (refused : buf.length < eh.phoff + (i + 1) * PHDR_SIZE) :
    elfSizeLoop buf eh (left + 1) i stop = some 0 := by
  rw [elfSizeLoop, wrap_table near (by omega) (by decide), if_pos refused]

theorem elfSizeLoop_whole (near : eh.phoff < 2 ^ 63) (fits : eh.Fits) (count : i + left = eh.phnum)
    (checked : left = 0 ∨ eh.phoff + eh.phnum * PHDR_SIZE ≤ buf.length)
    (inside : ∀ k < eh.phnum, Inside buf eh k) (small : stop < 2 ^ 64) :
    ∃ size, elfSizeLoop buf eh left i stop = some size ∧ stop ≤ size ∧ size < 2 ^ 64 ∧
      ∀ k, i ≤ k → k < eh.phnum → wrap (segmentEnd buf eh k) ≤ size := by
  induction left generalizing i stop with
  | zero => exact ⟨stop, rfl, le_rfl, small, fun k above below => by omega⟩
  | succ left ih =>
      have few := fits.phnum
      have here : eh.phoff + (i + 1) * PHDR_SIZE ≤ buf.length := by
        simp only [PHDR_SIZE] at checked ⊢
        omega
      have wrapped : wrap (segmentEnd buf eh i) < 2 ^ 64 := Nat.mod_lt _ (by decide)
      rw [elfSizeLoop_turn near fits (by omega) here (inside i (by omega) here)]
      obtain ⟨size, result, above, bounded, covered⟩ := ih (show i + 1 + left = eh.phnum by omega)
        (.inr (checked.resolve_left (by omega))) (max_lt small wrapped)
      refine ⟨size, result, (le_max_left _ _).trans above, bounded, fun k lower below => ?_⟩
      by_cases first : k = i
      · subst first
        exact (le_max_right _ _).trans above
      · exact covered k (by omega) below

theorem elfSizeLoop_cut (near : eh.phoff < 2 ^ 63) (fits : eh.Fits) (count : i + left = eh.phnum)
    (more : left ≠ 0) (cut : buf.length < eh.phoff + eh.phnum * PHDR_SIZE)
    (inside : ∀ k < eh.phnum, Inside buf eh k) : elfSizeLoop buf eh left i stop = some 0 := by
  induction left generalizing i stop with
  | zero => exact absurd rfl more
  | succ left ih =>
      have few := fits.phnum
      by_cases here : eh.phoff + (i + 1) * PHDR_SIZE ≤ buf.length
      · rw [elfSizeLoop_turn near fits (by omega) here (inside i (by omega) here)]
        refine ih (by omega) ?_
        rintro rfl
        have last : i + 1 = eh.phnum := by omega
        rw [last] at here
        omega
      · exact elfSizeLoop_stop near (by omega) (by omega)

theorem elfSizeLoop_outside (near : eh.phoff < 2 ^ 63) (fits : eh.Fits) (count : i + left = eh.phnum)
    {k : ℕ} (above : i ≤ k) (below : k < eh.phnum) (outside : ¬ Inside buf eh k) :
    elfSizeLoop buf eh left i stop = none := by
  induction left generalizing i stop with
  | zero => omega
  | succ left ih =>
      have few := fits.phnum
      rw [Inside] at outside
      have here : eh.phoff + (i + 1) * PHDR_SIZE ≤ buf.length := by
        simp only [PHDR_SIZE] at outside ⊢
        omega
      by_cases inside : eh.phoff + i * eh.phentsize + 40 ≤ buf.length
      · rw [elfSizeLoop_turn near fits (by omega) here inside]
        refine ih (by omega) ?_
        by_contra first
        have same : k = i := by omega
        subst same
        exact outside fun _ => inside
      · rw [elfSizeLoop, wrap_table near (by omega) (by decide), if_neg (by omega)]
        simp only [wrap_table near (by omega : i < 2 ^ 17) fits.phentsize]
        rw [readField_outside (by omega : ¬ eh.phoff + i * eh.phentsize + 32 + 8 ≤ buf.length)]
        cases readField buf (eh.phoff + i * eh.phentsize + 8) 8 <;> rfl

end Sizes

/-- The headers of a table that is read lie in the buffer. -/
def StrideFits (buf : List UInt8) (eh : Ehdr) : Prop :=
  eh.phnum = 0 ∨ eh.phoff + PHDR_SIZE < 2 ^ 64 ∧ ∀ i < eh.phnum, Inside buf eh i

/-- The ends that are added up are numbers of 64 bits. -/
def SumsFit (buf : List UInt8) (eh : Ehdr) : Prop :=
  eh.phnum = 0 ∨ eh.phoff + eh.phnum * PHDR_SIZE ≤ buf.length →
    eh.shoff + eh.shentsize * eh.shnum < 2 ^ 64 ∧ ∀ i < eh.phnum, segmentEnd buf eh i < 2 ^ 64

/-- The end of a table of whole headers does not wrap to a number that passes for one inside. -/
def TableFits (buf : List UInt8) (eh : Ehdr) : Prop :=
  eh.phentsize = PHDR_SIZE → eh.phoff + eh.phnum * PHDR_SIZE < 2 ^ 64 ∨
    buf.length < eh.phoff + eh.phnum * PHDR_SIZE - 2 ^ 64

/-- A size that cuts into nothing the header names. -/
structure Covers (buf : List UInt8) (eh : Ehdr) (size : ℕ) : Prop where
  phdrs : eh.phoff + eh.phentsize * eh.phnum ≤ size
  shdrs : eh.shoff + eh.shentsize * eh.shnum ≤ size
  segments : ∀ i < eh.phnum, segmentEnd buf eh i ≤ size

section Images

variable {buf : List UInt8} {eh : Ehdr}

def tablesEnd (eh : Ehdr) : ℕ :=
  max (max EHDR_SIZE (wrap (eh.phoff + eh.phentsize * eh.phnum))) (wrap (eh.shoff + eh.shentsize * eh.shnum))

theorem tablesEnd_lt (eh : Ehdr) : tablesEnd eh < 2 ^ 64 :=
  max_lt (max_lt (by decide) (Nat.mod_lt _ (by decide))) (Nat.mod_lt _ (by decide))

theorem vmlinuxElfSize_elf (has : HasEhdr buf eh) :
    vmlinuxElfSize buf = elfSizeLoop buf eh eh.phnum 0 (tablesEnd eh) := by
  obtain ⟨length, ident, rfl⟩ := has
  rw [vmlinuxElfSize, if_neg (by omega), readEhdr, if_pos length]
  exact if_neg (not_not.mpr ident)

theorem vmlinuxElfSize_other (other : ¬ HasEhdr buf (decodeEhdr buf)) : vmlinuxElfSize buf = some 0 := by
  rw [vmlinuxElfSize]
  split
  · rfl
  · rename_i length
    rw [readEhdr, if_pos (by omega)]
    refine if_pos fun ident => ?_
    exact other ⟨by omega, ident, rfl⟩

theorem vmlinuxElfSize_whole (has : HasEhdr buf eh) (small : buf.length < 2 ^ 63)
    (stride : StrideFits buf eh) (whole : eh.phnum = 0 ∨ eh.phoff + eh.phnum * PHDR_SIZE ≤ buf.length) :
    ∃ size, vmlinuxElfSize buf = some size ∧ tablesEnd eh ≤ size ∧ size < 2 ^ 64 ∧
      ∀ i < eh.phnum, wrap (segmentEnd buf eh i) ≤ size := by
  have fits : eh.Fits := has.decoded ▸ decodeEhdr_fits buf
  rw [vmlinuxElfSize_elf has]
  by_cases none : eh.phnum = 0
  · rw [none]
    exact ⟨tablesEnd eh, rfl, le_rfl, tablesEnd_lt eh, fun i below => absurd below (Nat.not_lt_zero i)⟩
  · have inBuffer := whole.resolve_left none
    obtain ⟨size, result, above, bounded, covered⟩ := elfSizeLoop_whole (by omega) fits (Nat.zero_add _)
      (.inr inBuffer) (stride.resolve_left none).2 (tablesEnd_lt eh)
    exact ⟨size, result, above, bounded, fun i below => covered i (Nat.zero_le i) below⟩

theorem elfSizeLoop_far {left stop : ℕ} (start : eh.phoff + PHDR_SIZE < 2 ^ 64)
    (far : buf.length < eh.phoff + PHDR_SIZE) : elfSizeLoop buf eh (left + 1) 0 stop = some 0 := by
  rw [elfSizeLoop, Nat.zero_add, Nat.one_mul, wrap_of_lt start, if_pos far]

theorem vmlinuxElfSize_cut (has : HasEhdr buf eh) (small : buf.length < 2 ^ 63)
    (stride : StrideFits buf eh) (found : eh.phnum ≠ 0)
    (cut : buf.length < eh.phoff + eh.phnum * PHDR_SIZE) : vmlinuxElfSize buf = some 0 := by
  have fits : eh.Fits := has.decoded ▸ decodeEhdr_fits buf
  obtain ⟨start, inside⟩ := stride.resolve_left found
  rw [vmlinuxElfSize_elf has]
  by_cases near : eh.phoff + PHDR_SIZE ≤ buf.length
  · exact elfSizeLoop_cut (by omega) fits (Nat.zero_add _) found cut inside
  · obtain ⟨left, count⟩ := Nat.exists_eq_succ_of_ne_zero found
    rw [count]
    exact elfSizeLoop_far start (by omega)

theorem elfSizeLoop_wrapped {left stop : ℕ} (has : HasEhdr buf eh) (small : buf.length < 2 ^ 63)
    (wraps : 2 ^ 64 ≤ eh.phoff + PHDR_SIZE) : elfSizeLoop buf eh (left + 1) 0 stop = none := by
  have fits : eh.Fits := has.decoded ▸ decodeEhdr_fits buf
  have length := has.length
  have passed : ¬ wrap (eh.phoff + (0 + 1) * PHDR_SIZE) > buf.length := by
    have := fits.phoff
    simp only [wrap, PHDR_SIZE, EHDR_SIZE] at wraps length ⊢
    omega
  have outside : ¬ eh.phoff + 8 + 8 ≤ buf.length := by
    simp only [PHDR_SIZE] at wraps
    omega
  rw [elfSizeLoop, if_neg passed]
  simp only [Nat.zero_mul, Nat.add_zero, wrap_of_lt fits.phoff]
  rw [readField_outside outside]
  rfl

theorem vmlinuxElfSize_inside (has : HasEhdr buf eh) (small : buf.length < 2 ^ 63) :
    vmlinuxElfSize buf ≠ none ↔ StrideFits buf eh := by
  have fits : eh.Fits := has.decoded ▸ decodeEhdr_fits buf
  constructor
  · intro returned
    by_contra outside
    rw [StrideFits, not_or, not_and_or] at outside
    obtain ⟨found, outside⟩ := outside
    rw [vmlinuxElfSize_elf has] at returned
    rcases outside with wraps | outside
    · obtain ⟨left, count⟩ := Nat.exists_eq_succ_of_ne_zero found
      rw [count] at returned
      exact returned (elfSizeLoop_wrapped has small (by omega))
    · simp only [not_forall] at outside
      obtain ⟨i, below, outside⟩ := outside
      refine returned (elfSizeLoop_outside ?_ fits (Nat.zero_add _) (Nat.zero_le i) below outside)
      rw [Inside] at outside
      omega
  · intro stride
    by_cases whole : eh.phnum = 0 ∨ eh.phoff + eh.phnum * PHDR_SIZE ≤ buf.length
    · obtain ⟨size, result, -⟩ := vmlinuxElfSize_whole has small stride whole
      rw [result]
      exact Option.some_ne_none size
    · rw [not_or] at whole
      rw [vmlinuxElfSize_cut has small stride whole.1 (by omega)]
      exact Option.some_ne_none 0

/-- Of a table inside the image the size is at least every end, unless one of them wraps. -/
theorem vmlinuxElfSize_covers_whole (has : HasEhdr buf eh) (small : buf.length < 2 ^ 63) (stride : StrideFits buf eh)
    (whole : eh.phnum = 0 ∨ eh.phoff + eh.phnum * PHDR_SIZE ≤ buf.length) :
    (∀ size, vmlinuxElfSize buf = some size → 0 < size → Covers buf eh size) ↔
      eh.shoff + eh.shentsize * eh.shnum < 2 ^ 64 ∧ ∀ i < eh.phnum, segmentEnd buf eh i < 2 ^ 64 := by
  have fits : eh.Fits := has.decoded ▸ decodeEhdr_fits buf
  obtain ⟨size, result, above, bounded, covered⟩ := vmlinuxElfSize_whole has small stride whole
  have header : EHDR_SIZE ≤ size := ((le_max_left _ _).trans (le_max_left _ _)).trans above
  constructor
  · intro covers
    obtain ⟨-, shdrs, segments⟩ := covers size result (Nat.lt_of_lt_of_le (by decide) header)
    exact ⟨shdrs.trans_lt bounded, fun i below => (segments i below).trans_lt bounded⟩
  · rintro ⟨shdrs, segments⟩ other same -
    obtain rfl := Option.some.inj (result.symm.trans same)
    have phdrs : eh.phoff + eh.phentsize * eh.phnum < 2 ^ 64 := by
      rcases whole with none | inBuffer
      · rw [none]
        exact fits.phoff
      · have : eh.phentsize * eh.phnum ≤ 2 ^ 16 * 2 ^ 16 := Nat.mul_le_mul fits.phentsize.le fits.phnum.le
        omega
    refine ⟨?_, ?_, ?_⟩
    · rw [← wrap_of_lt phdrs]
      exact ((le_max_right _ _).trans (le_max_left _ _)).trans above
    · rw [← wrap_of_lt shdrs]
      exact (le_max_right _ _).trans above
    · intro i below
      rw [← wrap_of_lt (segments i below)]
      exact covered i below

theorem vmlinuxElfSize_covers (has : HasEhdr buf eh) (small : buf.length < 2 ^ 63)
    (stride : StrideFits buf eh) :
    (∀ size, vmlinuxElfSize buf = some size → 0 < size → Covers buf eh size) ↔ SumsFit buf eh := by
  rw [SumsFit]
  by_cases whole : eh.phnum = 0 ∨ eh.phoff + eh.phnum * PHDR_SIZE ≤ buf.length
  · rw [vmlinuxElfSize_covers_whole has small stride whole, forall_prop_of_true whole]
  · have cut := not_or.mp whole
    rw [vmlinuxElfSize_cut has small stride cut.1 (by omega)]
    refine ⟨fun _ inBuffer => absurd inBuffer whole, ?_⟩
    intro _ size same positive
    obtain rfl := Option.some.inj same
    exact absurd positive (Nat.lt_irrefl 0)

theorem interpLoop_inside {left i : ℕ} (near : eh.phoff < 2 ^ 63) (fits : eh.Fits)
    (count : i + left = eh.phnum) (inBuffer : eh.phoff + eh.phnum * PHDR_SIZE ≤ buf.length) :
    interpLoop buf eh left i ≠ none := by
  induction left generalizing i with
  | zero => exact Option.some_ne_none 0
  | succ left ih =>
      have few := fits.phnum
      have inside : eh.phoff + i * PHDR_SIZE + 4 ≤ buf.length := by
        simp only [PHDR_SIZE] at inBuffer ⊢
        omega
      rw [interpLoop, wrap_table near (by omega) (by decide), readField_inside inside]
      show (if _ then _ else _) ≠ none
      split
      · exact Option.some_ne_none 1
      · exact ih (by omega)

theorem interpLoop_wrapped {left : ℕ} (fits : eh.Fits) (small : buf.length < 2 ^ 63)
    (wraps : 2 ^ 64 ≤ eh.phoff + eh.phnum * PHDR_SIZE) : interpLoop buf eh (left + 1) 0 = none := by
  have few := fits.phnum
  have outside : ¬ eh.phoff + 4 ≤ buf.length := by
    simp only [PHDR_SIZE] at wraps
    omega
  rw [interpLoop, Nat.zero_mul, Nat.add_zero, wrap_of_lt fits.phoff, readField_outside outside]
  rfl

theorem elfNeedsInterp_elf (has : HasEhdr buf eh) : elfNeedsInterp buf =
    if eh.phentsize ≠ PHDR_SIZE ∨ wrap (eh.phoff + eh.phnum * PHDR_SIZE) > buf.length then some (-ENOEXEC)
    else interpLoop buf eh eh.phnum 0 := by
  obtain ⟨length, ident, rfl⟩ := has
  rw [elfNeedsInterp, if_neg (by omega), readEhdr, if_pos length]
  simp only [Option.bind_eq_bind, Option.bind_some, ident, ne_eq, not_true_eq_false, false_or]

theorem elfNeedsInterp_other (other : ¬ HasEhdr buf (decodeEhdr buf)) : elfNeedsInterp buf ≠ none := by
  rw [elfNeedsInterp]
  split
  · exact Option.some_ne_none _
  · rename_i length
    rw [readEhdr, if_pos (by omega)]
    have refused : (decodeEhdr buf).ident ≠ ELF64_IDENT := fun ident => other ⟨by omega, ident, rfl⟩
    simp only [Option.bind_eq_bind, Option.bind_some, refused, ne_eq, not_false_eq_true, true_or, if_true]
    exact Option.some_ne_none _

theorem elfNeedsInterp_inside (has : HasEhdr buf eh) (small : buf.length < 2 ^ 63) :
    elfNeedsInterp buf ≠ none ↔ TableFits buf eh := by
  have fits : eh.Fits := has.decoded ▸ decodeEhdr_fits buf
  have offset := fits.phoff
  have few := fits.phnum
  rw [elfNeedsInterp_elf has, TableFits]
  by_cases stride : eh.phentsize = PHDR_SIZE
  · by_cases wraps : eh.phoff + eh.phnum * PHDR_SIZE < 2 ^ 64
    · simp only [stride, ne_eq, not_true_eq_false, false_or, wrap_of_lt wraps, wraps, true_or, implies_true,
        iff_true]
      split
      · exact Option.some_ne_none _
      · exact interpLoop_inside (by omega) fits (Nat.zero_add _) (by omega)
    · have wrapped : wrap (eh.phoff + eh.phnum * PHDR_SIZE) = eh.phoff + eh.phnum * PHDR_SIZE - 2 ^ 64 := by
        simp only [wrap, PHDR_SIZE] at wraps ⊢
        omega
      have found : eh.phnum ≠ 0 := by
        intro none
        rw [none] at wraps
        omega
      simp only [stride, ne_eq, not_true_eq_false, false_or, wrapped, wraps, forall_const]
      constructor
      · intro returned
        by_contra inBuffer
        rw [if_neg inBuffer] at returned
        obtain ⟨left, count⟩ := Nat.exists_eq_succ_of_ne_zero found
        rw [count] at returned
        exact returned (interpLoop_wrapped fits small (by omega))
      · intro refused
        rw [if_pos refused]
        exact Option.some_ne_none _
  · simp only [stride, ne_eq, not_false_eq_true, true_or, if_true, false_implies, iff_true]
    exact Option.some_ne_none _

end Images

/-- Which images are read inside their bytes and measured whole. -/
theorem elfReaders_iff {buf : List UInt8} (small : buf.length < 2 ^ 63) :
    (vmlinuxElfSize buf ≠ none ∧ elfNeedsInterp buf ≠ none ∧
      ∀ size, vmlinuxElfSize buf = some size → 0 < size → Covers buf (decodeEhdr buf) size) ↔
    (HasEhdr buf (decodeEhdr buf) →
      StrideFits buf (decodeEhdr buf) ∧ SumsFit buf (decodeEhdr buf) ∧ TableFits buf (decodeEhdr buf)) := by
  by_cases has : HasEhdr buf (decodeEhdr buf)
  · rw [vmlinuxElfSize_inside has small, elfNeedsInterp_inside has small, forall_prop_of_true has]
    constructor
    · rintro ⟨stride, table, covers⟩
      exact ⟨stride, (vmlinuxElfSize_covers has small stride).mp covers, table⟩
    · rintro ⟨stride, sums, table⟩
      exact ⟨stride, table, (vmlinuxElfSize_covers has small stride).mpr sums⟩
  · rw [vmlinuxElfSize_other has]
    simp only [has, false_implies, iff_true]
    refine ⟨Option.some_ne_none 0, elfNeedsInterp_other has, ?_⟩
    intro size same positive
    obtain rfl := Option.some.inj same
    exact absurd positive (Nat.lt_irrefl 0)

def smallImage (phentsize : UInt8 × UInt8) (phnum : UInt8) (offset filesz : List UInt8) (length : ℕ) :
    List UInt8 :=
  ELF64_IDENT ++ List.replicate 27 0 ++ [64] ++ List.replicate 21 0 ++ [phentsize.1, phentsize.2, phnum] ++
    List.replicate 15 0 ++ offset ++ List.replicate 16 0 ++ filesz ++ List.replicate (length - 104) 0

/-- Two headers with a stride that leads out of the image, and a segment whose end wraps. -/
theorem elfReaders_strideOrWrap :
    vmlinuxElfSize (smallImage (0xff, 0xff) 2 (List.replicate 8 0) (List.replicate 8 0) 176) = none ∧
      vmlinuxElfSize (smallImage (56, 0) 1 (List.replicate 8 0xff) (66 :: List.replicate 7 0) 120) = some 120 ∧
      ¬ Covers (smallImage (56, 0) 1 (List.replicate 8 0xff) (66 :: List.replicate 7 0) 120)
        (decodeEhdr (smallImage (56, 0) 1 (List.replicate 8 0xff) (66 :: List.replicate 7 0) 120)) 120 := by
  refine ⟨by decide +kernel, by decide +kernel, fun covers => ?_⟩
  exact absurd (covers.segments 0 (by decide +kernel)) (by decide +kernel)

theorem elfReaders_oneSegment :
    let image := smallImage (56, 0) 1 (List.replicate 8 0) (120 :: List.replicate 7 0) 120
    vmlinuxElfSize image ≠ none ∧ elfNeedsInterp image ≠ none ∧
      ∀ size, vmlinuxElfSize image = some size → 0 < size → Covers image (decodeEhdr image) size := by
  intro image
  have count : (decodeEhdr image).phnum = 1 := by decide +kernel
  apply (elfReaders_iff (by decide +kernel : image.length < 2 ^ 63)).mpr
  intro _
  refine ⟨.inr ⟨by decide +kernel, ?_⟩, fun _ => ⟨by decide +kernel, ?_⟩, fun _ => .inl (by decide +kernel)⟩
  · intro i below _
    obtain rfl : i = 0 := by omega
    decide +kernel
  · intro i below
    obtain rfl : i = 0 := by omega
    decide +kernel

end Kmorph
