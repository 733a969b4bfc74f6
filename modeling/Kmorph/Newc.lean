import Kmorph.Hexadecimal

/-!
The newc format of cpio archives. An entry is a header of thirteen hexadecimal
fields, the name with a NUL and the data, where name and data are followed by
zeros up to the next multiple of four; the entry `TRAILER!!!` ends the archive.
-/

namespace Newc

/-- `070701` -/
def MAGIC : List UInt8 := [48, 55, 48, 55, 48, 49]

def HEADER : ℕ := 110

/-- `TRAILER!!!` -/
def TRAILER : List UInt8 := [84, 82, 65, 73, 76, 69, 82, 33, 33, 33]

structure Entry where
  ino : ℕ
  mode : ℕ
  name : List UInt8
  data : List UInt8
deriving Repr, DecidableEq

def align (n : ℕ) : ℕ := (n + 3) / 4 * 4

/-- The entry at an offset of an archive, and the offset behind it. -/
def next (buf : List UInt8) (offset : ℕ) : Option (Entry × ℕ) := do
  let header := (buf.drop offset).take HEADER
  if header.length < HEADER ∨ header.take 6 ≠ MAGIC then none
  let fields ← Hexadecimal.decodeFields 8 13 (header.drop 6)
  let nameSize := fields.getD 11 0
  let dataSize := fields.getD 6 0
  let name := (buf.drop (offset + HEADER)).take nameSize
  let dataOffset := align (offset + HEADER + nameSize)
  let data := (buf.drop dataOffset).take dataSize
  if name.length < nameSize ∨ name.getLast? ≠ some 0 ∨ data.length < dataSize then none
  return (⟨fields.getD 0 0, fields.getD 1 0, name.dropLast, data⟩, align (dataOffset + dataSize))

/-- The entries from an offset on with their offsets, the trailer, and the offset behind it. -/
def readFrom (buf : List UInt8) : ℕ → ℕ → Option (List (ℕ × Entry) × (ℕ × Entry) × ℕ)
  | 0, _ => none
  | fuel + 1, offset => do
      let (entry, after) ← next buf offset
      if entry.name = TRAILER then return ([], (offset, entry), after)
      let (entries, last) ← readFrom buf fuel after
      return ((offset, entry) :: entries, last)

def read (buf : List UInt8) (offset : ℕ) : Option (List (ℕ × Entry) × (ℕ × Entry) × ℕ) :=
  readFrom buf (buf.length + 1) offset

def padding (n : ℕ) : List UInt8 := List.replicate (align n - n) 0

/-- The header of an entry that is owned by nobody, of no device and no time. -/
def header (ino mode dataSize nameSize : ℕ) : List UInt8 :=
  MAGIC ++ Hexadecimal.encodeFields 8 [ino, mode, 0, 0, 1, 0, dataSize, 0, 0, 0, 0, nameSize, 0]

def encode (e : Entry) : List UInt8 :=
  header e.ino e.mode e.data.length (e.name.length + 1) ++ ((e.name ++ [0]) ++
    (padding (HEADER + (e.name.length + 1)) ++ (e.data ++ padding e.data.length)))

structure Entry.Fits (e : Entry) : Prop where
  ino : e.ino < 2 ^ 32
  mode : e.mode < 2 ^ 32
  name : e.name.length + 1 < 2 ^ 32
  data : e.data.length < 2 ^ 32

/-- Entries one behind the other, each with its offset. -/
def placed : ℕ → List Entry → List (ℕ × Entry)
  | _, [] => []
  | offset, e :: entries => (offset, e) :: placed (offset + (encode e).length) entries

theorem align_eq (n : ℕ) : n ≤ align n ∧ align n < n + 4 ∧ 4 ∣ align n := by
  unfold align
  omega

theorem align_add {front : ℕ} (aligned : 4 ∣ front) (n : ℕ) : align (front + n) = front + align n := by
  unfold align
  omega

theorem length_padding (n : ℕ) : n + (padding n).length = align n := by
  have := align_eq n
  rw [padding, List.length_replicate]
  omega

theorem length_header (ino mode dataSize nameSize : ℕ) :
    (header ino mode dataSize nameSize).length = HEADER := by
  rw [header, List.length_append, Hexadecimal.length_encodeFields]
  rfl

theorem length_encode (e : Entry) :
    (encode e).length = align (HEADER + (e.name.length + 1)) + align e.data.length := by
  have name := length_padding (HEADER + (e.name.length + 1))
  have data := length_padding e.data.length
  simp only [encode, List.length_append, length_header, List.length_singleton]
  omega

theorem encode_aligned (e : Entry) : 4 ∣ (encode e).length := by
  rw [length_encode]
  exact Nat.dvd_add (align_eq _).2.2 (align_eq _).2.2

theorem slice_of_split {buf front part rest : List UInt8} {offset size : ℕ}
    (split : buf = front ++ (part ++ rest)) (start : offset = front.length)
    (count : size = part.length) : (buf.drop offset).take size = part := by
  rw [split, start, count, List.drop_left, List.take_left]

theorem length_magic : MAGIC.length = 6 := rfl

theorem decodeFields_header {ino mode dataSize nameSize : ℕ} (inoFits : ino < 2 ^ 32)
    (modeFits : mode < 2 ^ 32) (dataFits : dataSize < 2 ^ 32) (nameFits : nameSize < 2 ^ 32) :
    Hexadecimal.decodeFields 8 13 ((header ino mode dataSize nameSize).drop 6) =
      some [ino, mode, 0, 0, 1, 0, dataSize, 0, 0, 0, 0, nameSize, 0] := by
  have read := @Hexadecimal.decodeFields_encodeFields 8
    [ino, mode, 0, 0, 1, 0, dataSize, 0, 0, 0, 0, nameSize, 0]
  rw [header, List.drop_left' length_magic, ← List.append_nil (Hexadecimal.encodeFields _ _)]
  refine read ?_ []
  have zero : 0 < 16 ^ 8 := by decide
  simp only [List.forall_mem_cons, List.not_mem_nil, false_implies, implies_true, and_true]
  omega

/-- An entry is read back from where it was written, whatever stands around it. -/
theorem next_encode {e : Entry} (fits : e.Fits) {front : List UInt8} (aligned : 4 ∣ front.length)
    (rest : List UInt8) :
    next (front ++ (encode e ++ rest)) front.length =
      some (e, front.length + (encode e).length) := by
  obtain ⟨ino, mode, name, data⟩ := e
  have namePadded := length_padding (HEADER + (name.length + 1))
  have dataPadded := length_padding data.length
  generalize buffer : front ++ (encode ⟨ino, mode, name, data⟩ ++ rest) = buf
  have nameSplit : buf = (front ++ header ino mode data.length (name.length + 1)) ++
      ((name ++ [0]) ++ (padding (HEADER + (name.length + 1)) ++ (data ++ padding data.length) ++
        rest)) := by
    rw [← buffer, encode]
    simp only [List.append_assoc]
  have dataSplit : buf = (front ++ (header ino mode data.length (name.length + 1) ++
      ((name ++ [0]) ++ padding (HEADER + (name.length + 1))))) ++
        (data ++ (padding data.length ++ rest)) := by
    rw [← buffer, encode]
    simp only [List.append_assoc]
  have headerPart : (buf.drop front.length).take HEADER =
      header ino mode data.length (name.length + 1) :=
    slice_of_split (by rw [← buffer, encode, List.append_assoc]) rfl (length_header ..).symm
  have namePart : (buf.drop (front.length + HEADER)).take (name.length + 1) = name ++ [0] :=
    slice_of_split nameSplit (by rw [List.length_append, length_header]) (by simp)
  have dataPart : (buf.drop (front.length + align (HEADER + (name.length + 1)))).take data.length =
      data := by
    refine slice_of_split dataSplit ?_ rfl
    simp only [List.length_append, length_header, List.length_singleton]
    omega
  have dataOffset : align (front.length + HEADER + (name.length + 1)) =
      front.length + align (HEADER + (name.length + 1)) := by
    rw [Nat.add_assoc, align_add aligned]
  have behind : align (front.length + align (HEADER + (name.length + 1)) + data.length) =
      front.length + (encode ⟨ino, mode, name, data⟩).length := by
    rw [length_encode, align_add (Nat.dvd_add aligned (align_eq _).2.2), Nat.add_assoc]
  have magic : (header ino mode data.length (name.length + 1)).take 6 = MAGIC :=
    List.take_left' length_magic
  have fields := decodeFields_header fits.ino fits.mode fits.data fits.name
  simp only [next, headerPart, length_header, Nat.lt_irrefl, magic, ne_eq, not_true_eq_false, or_self,
    if_false, fields, Option.bind_eq_bind, Option.bind_some, List.getD_cons_succ, List.getD_cons_zero,
    namePart, dataOffset, dataPart, behind]
  simp

/-- A whole archive is read back from a multiple of four. -/
theorem readFrom_encode {entries : List Entry} {trailer : Entry} {front : List UInt8}
    (aligned : 4 ∣ front.length) (fits : ∀ e ∈ entries, e.Fits) (named : ∀ e ∈ entries, e.name ≠ TRAILER)
    (trailerFits : trailer.Fits) (isTrailer : trailer.name = TRAILER) (rest : List UInt8) {fuel : ℕ}
    (enough : entries.length < fuel) :
    readFrom (front ++ (entries.flatMap encode ++ (encode trailer ++ rest))) fuel front.length =
      some (placed front.length entries,
        (front.length + (entries.flatMap encode).length, trailer),
        front.length + (entries.flatMap encode).length + (encode trailer).length) := by
  induction entries generalizing front fuel with
  | nil =>
      obtain ⟨fuel, rfl⟩ := Nat.exists_eq_succ_of_ne_zero (Nat.ne_zero_of_lt enough)
      simp [readFrom, next_encode trailerFits aligned rest, isTrailer, placed]
  | cons e entries ih =>
      obtain ⟨fuel, rfl⟩ := Nat.exists_eq_succ_of_ne_zero (Nat.ne_zero_of_lt enough)
      have regroup : front ++ ((e :: entries).flatMap encode ++ (encode trailer ++ rest)) =
          (front ++ encode e) ++ (entries.flatMap encode ++ (encode trailer ++ rest)) := by
        simp
      have first := next_encode (fits e (by simp)) aligned
        (entries.flatMap encode ++ (encode trailer ++ rest))
      rw [← List.append_assoc, ← regroup] at first
      have others := @ih (front ++ encode e)
        (by rw [List.length_append]; exact Nat.dvd_add aligned (encode_aligned e))
        (fun other member => fits other (by simp [member]))
        (fun other member => named other (by simp [member])) fuel
        (by rw [List.length_cons] at enough; omega)
      rw [← regroup, List.length_append] at others
      rw [readFrom]
      simp only [first, Option.bind_eq_bind, Option.bind_some, named e (by simp), if_false, others]
      simp only [placed, List.flatMap_cons, List.length_append, Nat.add_assoc, Option.pure_def]

theorem length_le_flatMap_encode (entries : List Entry) :
    entries.length ≤ (entries.flatMap encode).length := by
  induction entries with
  | nil => simp
  | cons e entries ih =>
      have := (align_eq (HEADER + (e.name.length + 1))).1
      rw [List.flatMap_cons, List.length_append, length_encode, List.length_cons, HEADER] at *
      omega

theorem read_encode {entries : List Entry} {trailer : Entry} {front : List UInt8}
    (aligned : 4 ∣ front.length) (fits : ∀ e ∈ entries, e.Fits) (named : ∀ e ∈ entries, e.name ≠ TRAILER)
    (trailerFits : trailer.Fits) (isTrailer : trailer.name = TRAILER) (rest : List UInt8) :
    read (front ++ (entries.flatMap encode ++ (encode trailer ++ rest))) front.length =
      some (placed front.length entries,
        (front.length + (entries.flatMap encode).length, trailer),
        front.length + (entries.flatMap encode).length + (encode trailer).length) := by
  refine readFrom_encode aligned fits named trailerFits isTrailer rest ?_
  have := length_le_flatMap_encode entries
  simp only [List.length_append]
  omega

@[simp] theorem placed_map_snd (offset : ℕ) (entries : List Entry) :
    (placed offset entries).map Prod.snd = entries := by
  induction entries generalizing offset with
  | nil => rfl
  | cons e entries ih => rw [placed, List.map_cons, ih]

theorem flatMap_encode_aligned (entries : List Entry) : 4 ∣ (entries.flatMap encode).length := by
  induction entries with
  | nil => simp
  | cons e entries ih =>
      rw [List.flatMap_cons, List.length_append]
      exact Nat.dvd_add (encode_aligned e) ih

theorem placed_aligned {offset : ℕ} (aligned : 4 ∣ offset) (entries : List Entry) :
    ∀ p ∈ placed offset entries, 4 ∣ p.1 := by
  induction entries generalizing offset with
  | nil => simp [placed]
  | cons e entries ih =>
      rw [placed, List.forall_mem_cons]
      exact ⟨aligned, ih (Nat.dvd_add aligned (encode_aligned e))⟩

end Newc
