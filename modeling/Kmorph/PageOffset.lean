import Kmorph.Elfcore
import Mathlib.Data.List.Pairwise

/-!
The page offset of a kcore: of all the pairs of headers `crashinfo_read_page_offset`
tries, only the RAM the kernel image lies in and the image match.
-/

namespace Kmorph

open Records

structure HoldsPhdrs (file : List UInt8) (phdrs : List Phdr) : Prop where
  length : EHDR_SIZE ≤ file.length
  ident : (decodeEhdr file).ident = ELF64_IDENT
  stride : (decodeEhdr file).phentsize = PHDR_SIZE
  count : (decodeEhdr file).phnum = phdrs.length
  offset : (decodeEhdr file).phoff ≤ OFFSET_MAX
  fits : ∀ ph ∈ phdrs, ph.Fits
  table : pread file (phdrs.length * PHDR_SIZE) (decodeEhdr file).phoff =
    phdrs.flatMap fun ph => encodeFields ph.fields

def Phdr.stop (ph : Phdr) : ℕ := ph.paddr + ph.memsz

def Phdr.Apart (first second : Phdr) : Prop := first.stop ≤ second.paddr ∨ second.stop ≤ first.paddr

instance (first second : Phdr) : Decidable (Phdr.Apart first second) :=
  inferInstanceAs (Decidable (first.stop ≤ second.paddr ∨ second.stop ≤ first.paddr))

instance : Std.Symm Phdr.Apart := ⟨fun _ _ apart => apart.symm⟩

structure Mapped (ph : Phdr) : Prop where
  nonempty : 0 < ph.memsz
  noWrap : ph.stop < 2 ^ 64

/-- The loads with a physical address are RAM at one offset, and the image at another. -/
structure Kcore (offset : ℕ) (before : List Phdr) (image : Phdr) (after : List Phdr) : Prop where
  image : hasPaddr image = true ∧ Mapped image ∧ physOffset image ≠ offset
  ram : ∀ ph ∈ before ++ after, hasPaddr ph = true → Mapped ph ∧ physOffset ph = offset
  apart : ((before ++ after).filter hasPaddr).Pairwise Phdr.Apart

/-- The image lies in a segment that has more than the image. -/
structure ProperlyIn (image ram : Phdr) : Prop where
  start : ram.paddr ≤ image.paddr
  stop : image.stop ≤ ram.stop
  proper : ram.paddr < image.paddr ∨ image.stop < ram.stop

structure Matching (phdrs : List Phdr) (i j : ℕ) (ram image : Phdr) : Prop where
  ramLoad : phdrs[i]? = some ram ∧ hasPaddr ram = true
  imageLoad : phdrs[j]? = some image ∧ hasPaddr image = true
  distinct : i ≠ j
  maps : mapsImage ram image = true

section Search

variable {phdrs before after : List Phdr} {image ram other : Phdr} {offset i j : ℕ}

theorem findPageOffset_some (found : findPageOffset phdrs = some offset) :
    ∃ i j ram image, Matching phdrs i j ram image ∧ offset = physOffset ram := by
  obtain ⟨⟨ram, i⟩, ramMember, found⟩ := List.exists_of_findSome?_eq_some found
  obtain ⟨⟨image, j⟩, imageMember, found⟩ := List.exists_of_findSome?_eq_some found
  rw [List.mem_zipIdx_iff_getElem?] at ramMember imageMember
  split at found
  · cases found
  · rename_i pair
    simp only [not_or, Bool.not_eq_true', Bool.not_eq_false] at pair
    obtain ⟨distinct, ramPaddr, imagePaddr, maps⟩ := pair
    exact ⟨i, j, ram, image, ⟨⟨ramMember, ramPaddr⟩, ⟨imageMember, imagePaddr⟩, distinct, maps⟩,
      (Option.some.inj found).symm⟩

theorem findPageOffset_ne_none (pair : Matching phdrs i j ram image) : findPageOffset phdrs ≠ none := by
  intro none
  have inner := List.findSome?_eq_none_iff.mp none (ram, i) (List.mem_zipIdx_iff_getElem?.mpr pair.ramLoad.1)
  have missed := List.findSome?_eq_none_iff.mp inner (image, j)
    (List.mem_zipIdx_iff_getElem?.mpr pair.imageLoad.1)
  rw [if_neg] at missed
  · cases missed
  · simp [pair.distinct, pair.ramLoad.2, pair.imageLoad.2, pair.maps]

theorem mapsImage_iff (ramMapped : Mapped ram) (imageMapped : Mapped image) :
    mapsImage ram image = true ↔
      ram.paddr ≤ image.paddr ∧ image.stop ≤ ram.stop ∧ physOffset image ≠ physOffset ram := by
  have ramStop : wrap (ram.paddr + ram.memsz) = ram.stop := Nat.mod_eq_of_lt ramMapped.noWrap
  have imageStop : wrap (image.paddr + image.memsz) = image.stop := Nat.mod_eq_of_lt imageMapped.noWrap
  rw [mapsImage, decide_eq_true_eq, ramStop, imageStop]

theorem getElem?_split (here : (before ++ image :: after)[i]? = some other) :
    i = before.length ∧ other = image ∨ i ≠ before.length ∧ other ∈ before ++ after := by
  rcases Nat.lt_trichotomy i before.length with first | middle | last
  · right
    rw [List.getElem?_append_left first] at here
    exact ⟨by omega, List.mem_append_left _ (List.mem_of_getElem? here)⟩
  · left
    rw [middle, List.getElem?_append_right le_rfl, Nat.sub_self, List.getElem?_cons_zero] at here
    exact ⟨middle, (Option.some.inj here).symm⟩
  · right
    obtain ⟨k, place⟩ := Nat.exists_eq_add_of_lt last
    rw [List.getElem?_append_right (by omega), place, Nat.add_assoc, Nat.add_sub_cancel_left,
      List.getElem?_cons_succ] at here
    exact ⟨by omega, List.mem_append_right _ (List.mem_of_getElem? here)⟩

theorem getElem?_of_other (image : Phdr) (member : ram ∈ before ++ after) :
    ∃ i, i ≠ before.length ∧ (before ++ image :: after)[i]? = some ram := by
  rcases List.mem_append.mp member with first | last
  · obtain ⟨i, here⟩ := List.mem_iff_getElem?.mp first
    have below := (List.getElem?_eq_some_iff.mp here).1
    exact ⟨i, by omega, by rw [List.getElem?_append_left below, here]⟩
  · obtain ⟨k, here⟩ := List.mem_iff_getElem?.mp last
    refine ⟨before.length + (k + 1), by omega, ?_⟩
    rw [List.getElem?_append_right (by omega), Nat.add_sub_cancel_left, List.getElem?_cons_succ, here]

variable (kcore : Kcore offset before image after)

include kcore

theorem Kcore.overlapping (ramMember : ram ∈ before ++ after) (ramPaddr : hasPaddr ram = true)
    (otherMember : other ∈ before ++ after) (otherPaddr : hasPaddr other = true)
    (overlap : ¬ Phdr.Apart ram other) : ram = other := by
  by_contra different
  exact overlap (kcore.apart.forall (List.mem_filter.mpr ⟨ramMember, ramPaddr⟩)
    (List.mem_filter.mpr ⟨otherMember, otherPaddr⟩) different)

theorem Kcore.matching (pair : Matching (before ++ image :: after) i j ram other) :
    (physOffset ram = offset ∧ ram ∈ before ++ after ∧ hasPaddr ram = true ∧ other = image ∨
      ram = image ∧ other ∈ before ++ after ∧ hasPaddr other = true) ∧
    ram.paddr ≤ other.paddr ∧ other.stop ≤ ram.stop := by
  obtain ⟨⟨ramHere, ramPaddr⟩, ⟨otherHere, otherPaddr⟩, distinct, maps⟩ := pair
  obtain ⟨imagePaddr, imageMapped, imageOffset⟩ := kcore.image
  rcases getElem?_split ramHere with ⟨ramPlace, rfl⟩ | ⟨-, ramMember⟩
  · rcases getElem?_split otherHere with ⟨otherPlace, -⟩ | ⟨-, otherMember⟩
    · exact absurd (ramPlace.trans otherPlace.symm) distinct
    · obtain ⟨start, stop, -⟩ := (mapsImage_iff imageMapped (kcore.ram other otherMember otherPaddr).1).mp maps
      exact ⟨.inr ⟨rfl, otherMember, otherPaddr⟩, start, stop⟩
  · obtain ⟨ramMapped, ramOffset⟩ := kcore.ram ram ramMember ramPaddr
    rcases getElem?_split otherHere with ⟨-, rfl⟩ | ⟨-, otherMember⟩
    · obtain ⟨start, stop, -⟩ := (mapsImage_iff ramMapped imageMapped).mp maps
      exact ⟨.inl ⟨ramOffset, ramMember, ramPaddr, rfl⟩, start, stop⟩
    · obtain ⟨otherMapped, otherOffset⟩ := kcore.ram other otherMember otherPaddr
      obtain ⟨-, -, offsets⟩ := (mapsImage_iff ramMapped otherMapped).mp maps
      exact absurd (otherOffset.trans ramOffset.symm) offsets

theorem findPageOffset_inRam (member : ram ∈ before ++ after) (paddr : hasPaddr ram = true)
    (inside : ProperlyIn image ram) : findPageOffset (before ++ image :: after) = some offset := by
  obtain ⟨imagePaddr, imageMapped, imageOffset⟩ := kcore.image
  obtain ⟨ramMapped, ramOffset⟩ := kcore.ram ram member paddr
  have found : findPageOffset (before ++ image :: after) ≠ none := by
    obtain ⟨i, place, here⟩ := getElem?_of_other image member
    have imageHere : (before ++ image :: after)[before.length]? = some image := by
      rw [List.getElem?_append_right le_rfl, Nat.sub_self, List.getElem?_cons_zero]
    have different : physOffset image ≠ physOffset ram := by rwa [ramOffset]
    exact findPageOffset_ne_none ⟨⟨here, paddr⟩, ⟨imageHere, imagePaddr⟩, place,
      (mapsImage_iff ramMapped imageMapped).mpr ⟨inside.start, inside.stop, different⟩⟩
  obtain ⟨result, found⟩ := Option.ne_none_iff_exists'.mp found
  obtain ⟨i, j, first, other, pair, rfl⟩ := findPageOffset_some found
  obtain ⟨segments, start, stop⟩ := kcore.matching pair
  rcases segments with ⟨offset, -⟩ | ⟨rfl, otherMember, otherPaddr⟩
  · rw [found, offset]
  · -- RAM inside the image would be the RAM around it.
    have otherNonempty := (kcore.ram other otherMember otherPaddr).1.nonempty
    have overlap : ¬ Phdr.Apart other ram := by
      have := inside.start
      have := inside.stop
      simp only [Phdr.Apart, Phdr.stop] at *
      omega
    obtain rfl := kcore.overlapping otherMember otherPaddr member paddr overlap
    have := inside.proper
    omega

theorem findPageOffset_noRam (outside : ∀ ram ∈ before ++ after, hasPaddr ram = true → Phdr.Apart image ram) :
    findPageOffset (before ++ image :: after) = none := by
  rw [← Option.not_isSome_iff_eq_none]
  intro found
  obtain ⟨offset, found⟩ := Option.isSome_iff_exists.mp found
  obtain ⟨i, j, ram, other, pair, -⟩ := findPageOffset_some found
  obtain ⟨segments, start, stop⟩ := kcore.matching pair
  rcases segments with ⟨-, member, paddr, rfl⟩ | ⟨rfl, member, paddr⟩
  · have := kcore.image.2.1.nonempty
    have apart := outside ram member paddr
    simp only [Phdr.Apart, Phdr.stop] at *
    omega
  · have := (kcore.ram other member paddr).1.nonempty
    have apart := outside other member paddr
    simp only [Phdr.Apart, Phdr.stop] at *
    omega

end Search

section Files

variable {file : List UInt8} {phdrs : List Phdr}

theorem crashinfoReadPageOffset_holds (holds : HoldsPhdrs file phdrs) :
    crashinfoReadPageOffset true (.ok file) = (findPageOffset phdrs).elim (.error (-ENOENT)) .ok := by
  obtain ⟨length, ident, stride, count, offset, fits, table⟩ := holds
  have read := readTable_encode fits []
  rw [List.append_nil] at read
  simp only [crashinfoReadPageOffset]
  rw [if_neg (by simp [ident, stride]; omega), if_neg (by decide), count, table,
    if_neg (not_or.mpr ⟨by omega, not_not.mpr (length_phdrs phdrs)⟩), read]
  cases findPageOffset phdrs <;> rfl

theorem decodeEhdr_fill (few : phdrs.length < 2 ^ 16) (rest : List UInt8) :
    let eh := decodeEhdr (encodeFields (fillEhdr phdrs.length) ++ rest)
    eh.ident = ELF64_IDENT ∧ eh.phoff = EHDR_SIZE ∧ eh.phentsize = PHDR_SIZE ∧ eh.phnum = phdrs.length := by
  have split : encodeFields (fillEhdr phdrs.length) ++ rest =
      encodeFields ((fillEhdr 0).take 18) ++ (encodeField (2, phdrs.length) ++
        (encodeFields ((fillEhdr 0).drop 19) ++ rest)) := by
    simp only [encodeFields, fillEhdr, List.take_succ_cons, List.take_zero, List.drop_succ_cons, List.drop_zero,
      List.flatMap_cons, List.flatMap_nil, List.append_assoc, List.append_nil]
  have front : (encodeFields ((fillEhdr 0).take 18)).length = 56 := by decide +kernel
  rw [split]
  generalize encodeFields ((fillEhdr 0).drop 19) ++ rest = tail
  refine ⟨?_, ?_, ?_, ?_⟩
  · show (encodeFields ((fillEhdr 0).take 18) ++ (encodeField (2, phdrs.length) ++ tail)).take 5 = _
    rw [List.take_append_of_le_length (by omega)]
    decide +kernel
  · show field (encodeFields ((fillEhdr 0).take 18) ++ (encodeField (2, phdrs.length) ++ tail)) 32 8 = _
    rw [field_append (by omega)]
    decide +kernel
  · show field (encodeFields ((fillEhdr 0).take 18) ++ (encodeField (2, phdrs.length) ++ tail)) 54 2 = _
    rw [field_append (by omega)]
    decide +kernel
  · have count : (encodeField (2, phdrs.length)).length = 2 := length_encodeField _
    show field (encodeFields ((fillEhdr 0).take 18) ++ (encodeField (2, phdrs.length) ++ tail)) 56 2 = _
    rw [field, List.drop_left' front, List.take_left' count, decodeField_encodeField few]

theorem holdsPhdrs_encode (few : phdrs.length < 2 ^ 16) (fits : ∀ ph ∈ phdrs, ph.Fits) :
    HoldsPhdrs (encodeFields (fillEhdr phdrs.length) ++ phdrs.flatMap fun ph => encodeFields ph.fields)
      phdrs := by
  obtain ⟨ident, offset, stride, count⟩ :=
    decodeEhdr_fill few (phdrs.flatMap fun ph => encodeFields ph.fields)
  have length := length_fillEhdr phdrs.length
  have small : EHDR_SIZE ≤ OFFSET_MAX := by decide
  refine ⟨?_, ident, stride, count, offset ▸ small, fits, ?_⟩
  · rw [List.length_append, length]
    omega
  · rw [offset, pread, if_neg (by omega), List.drop_left' length, List.take_of_length_le]
    rw [length_phdrs]

end Files

/-- The page offset is that of the RAM around the image, and there is none without it. -/
theorem crashinfoReadPageOffset_exact {file : List UInt8} {before after : List Phdr} {image : Phdr}
    {offset : ℕ} (holds : HoldsPhdrs file (before ++ image :: after))
    (kcore : Kcore offset before image after) :
    ((∃ ram ∈ before ++ after, hasPaddr ram = true ∧ ProperlyIn image ram) →
      crashinfoReadPageOffset true (.ok file) = .ok offset) ∧
    ((∀ ram ∈ before ++ after, hasPaddr ram = true → Phdr.Apart image ram) →
      crashinfoReadPageOffset true (.ok file) = .error (-ENOENT)) := by
  rw [crashinfoReadPageOffset_holds holds]
  constructor
  · rintro ⟨ram, member, paddr, inside⟩
    rw [findPageOffset_inRam kcore member paddr inside]
    rfl
  · intro outside
    rw [findPageOffset_noRam kcore outside]
    rfl

/-- An image in RAM, as it is on x86-64. -/
theorem crashinfoReadPageOffset_direct :
    let image : Phdr := ⟨PT_LOAD, 5, 0, 0xffffffff81000000, 0x1000000, 0, 0x2000000, 0⟩
    let ram : Phdr := ⟨PT_LOAD, 7, 0, 0xffff888000100000, 0x100000, 0, 0x7ff00000, 0⟩
    let phdrs := [⟨PT_NOTE, 0, 0, 0, 0, 0, 0, 0⟩, image, ram]
    crashinfoReadPageOffset true (.ok (encodeFields (fillEhdr phdrs.length) ++
      phdrs.flatMap fun ph => encodeFields ph.fields)) = .ok 0xffff888000000000 := by
  intro image ram phdrs
  have fits : ∀ ph ∈ phdrs, ph.Fits := by
    unfold Phdr.Fits
    decide
  have kcore : Kcore 0xffff888000000000 [⟨PT_NOTE, 0, 0, 0, 0, 0, 0, 0⟩] image [ram] := by
    refine ⟨⟨by decide, ⟨by decide, by decide⟩, by decide⟩, ?_, by decide⟩
    intro ph member paddr
    rcases List.mem_cons.mp member with rfl | member
    · exact absurd paddr (by decide)
    · obtain rfl := List.mem_singleton.mp member
      exact ⟨⟨by decide, by decide⟩, by decide⟩
  exact (crashinfoReadPageOffset_exact (holdsPhdrs_encode (by decide) fits) kcore).1
    ⟨ram, by decide, by decide, by decide, by decide, by decide⟩

end Kmorph
