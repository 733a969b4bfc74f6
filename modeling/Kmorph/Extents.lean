import Mathlib.Data.List.GetD

/-!
Files as lists of cells, written piece by piece. `writeAt` puts a piece at its
offset in a file, `appendAt` at the end of a stream after filling the gap before
it with blanks. For pieces in file order both leave the same cells.
-/

namespace Extents

variable {α : Type*} (blank : α)

def writeAt (file : List α) (off : ℕ) (data : List α) : List α :=
  file.take off ++ List.replicate (off - file.length) blank ++ data ++ file.drop (off + data.length)

/-- The cells from an offset on. -/
def cells (file : List α) (off len : ℕ) : List α := (file.drop off).take len

def appendAt (stream : List α) (off : ℕ) (data : List α) : List α :=
  stream ++ List.replicate (off - stream.length) blank ++ data

/-- The file or, on sequential output, the stream once a piece has been put at its offset. -/
def place (seekable : Bool) (out : List α) (off : ℕ) (data : List α) : List α :=
  if seekable then writeAt blank out off data else appendAt blank out off data

/-- There is room for a piece: inside the file, or not before the end of the stream. -/
def Fits (seekable : Bool) (out : List α) (off len : ℕ) : Prop :=
  if seekable then off + len ≤ out.length else out.length ≤ off

def BlankOn (file : List α) (start stop : ℕ) : Prop :=
  ∀ i, start ≤ i → i < stop → file.getD i blank = blank

/-- Pieces in file order: each starts at or after the end of the one before it. -/
def InOrder (start : ℕ) (pieces : List (ℕ × List α)) (stop : ℕ) : Prop :=
  match pieces with
  | [] => start ≤ stop
  | (off, data) :: rest => start ≤ off ∧ InOrder (off + data.length) rest stop

def placeAll (seekable : Bool) (out : List α) (pieces : List (ℕ × List α)) : List α :=
  pieces.foldl (fun out piece => place blank seekable out piece.1 piece.2) out

def inPiece (piece : ℕ × List α) (i : ℕ) : Prop :=
  piece.1 ≤ i ∧ i < piece.1 + piece.2.length

variable {blank} {file stream out data first second : List α} {off len start stop : ℕ}
  {seekable : Bool} {pieces : List (ℕ × List α)}

theorem ext_getD (blank : α) (sameLength : first.length = second.length)
    (same : ∀ i, i < first.length → first.getD i blank = second.getD i blank) : first = second := by
  apply List.ext_getElem sameLength
  intro i inFirst inSecond
  have cells := same i inFirst
  rwa [List.getD_eq_getElem _ _ inFirst, List.getD_eq_getElem _ _ inSecond] at cells

theorem length_writeAt (fits : off + data.length ≤ file.length) :
    (writeAt blank file off data).length = file.length := by
  simp only [writeAt, List.length_append, List.length_take, List.length_replicate, List.length_drop]
  omega

theorem getD_writeAt (fits : off + data.length ≤ file.length) (i : ℕ) :
    (writeAt blank file off data).getD i blank =
      if off ≤ i ∧ i < off + data.length then data.getD (i - off) blank else file.getD i blank := by
  have noGap : off - file.length = 0 := by omega
  have taken : (file.take off).length = off := by
    rw [List.length_take]
    omega
  simp only [writeAt, noGap, List.replicate_zero, List.append_nil, List.getD_eq_getElem?_getD]
  by_cases before : i < off
  · rw [if_neg (by omega), List.append_assoc, List.getElem?_append_left (by omega),
      List.getElem?_take, if_pos before]
  · by_cases inside : i < off + data.length
    · rw [if_pos (by omega), List.append_assoc, List.getElem?_append_right (by omega), taken,
        List.getElem?_append_left (by omega)]
    · rw [if_neg (by omega), List.getElem?_append_right (by simp only [List.length_append]; omega),
        List.getElem?_drop, List.length_append, taken]
      congr 2
      omega

theorem cells_writeAt : cells (writeAt blank file off data) off data.length = data := by
  have before : (file.take off ++ List.replicate (off - file.length) blank).length = off := by
    rw [List.length_append, List.length_take, List.length_replicate]
    omega
  rw [cells, writeAt, List.append_assoc _ data, List.drop_left' before, List.take_left]

theorem length_cells (inside : start + len ≤ file.length) : (cells file start len).length = len := by
  rw [cells, List.length_take, List.length_drop]
  omega

theorem getD_cells {i : ℕ} (inside : i < len) :
    (cells file start len).getD i blank = file.getD (start + i) blank := by
  rw [cells, List.getD_eq_getElem?_getD, List.getElem?_take_of_lt inside, List.getElem?_drop,
    List.getD_eq_getElem?_getD]

theorem cells_middle {before part after : List α} (starts : before.length = off) (size : part.length = len) :
    cells (before ++ (part ++ after)) off len = part := by
  rw [cells, List.drop_left' starts, List.take_left' size]

theorem cells_cells {inner count : ℕ} (inside : inner + count ≤ len) :
    cells (cells file start len) inner count = cells file (start + inner) count := by
  rw [cells, cells, cells, List.drop_take, List.drop_drop, List.take_take]
  congr 1
  omega

theorem writeAt_append {before after : List α} (starts : before.length = off) :
    writeAt blank (before ++ after) off data = before ++ (data ++ after.drop data.length) := by
  have room : off - (before ++ after).length = 0 := by
    rw [List.length_append]
    omega
  rw [writeAt, room, List.replicate_zero, List.append_nil, List.take_left' starts, ← List.drop_drop,
    List.drop_left' starts, List.append_assoc]

theorem writeAt_middle {before part after : List α} (starts : before.length = off)
    (size : part.length = data.length) :
    writeAt blank (before ++ (part ++ after)) off data = before ++ (data ++ after) := by
  rw [writeAt_append starts, List.drop_left' size]

theorem cells_writeAt_apart (fits : off + data.length ≤ file.length) (inside : start + len ≤ file.length)
    (apart : start + len ≤ off ∨ off + data.length ≤ start) :
    cells (writeAt blank file off data) start len = cells file start len := by
  have written : (cells (writeAt blank file off data) start len).length = len :=
    length_cells (by rwa [length_writeAt fits])
  apply ext_getD blank (written.trans (length_cells inside).symm)
  intro i below
  rw [written] at below
  rw [getD_cells below, getD_writeAt fits, if_neg (by omega), getD_cells below]

theorem writeAt_writeAt (fits : off + (first.length + second.length) ≤ file.length) :
    writeAt blank (writeAt blank file off first) (off + first.length) second =
      writeAt blank file off (first ++ second) := by
  have inner : (writeAt blank file off first).length = file.length := length_writeAt (by omega)
  have outer : (writeAt blank file off (first ++ second)).length = file.length :=
    length_writeAt (by rw [List.length_append]; omega)
  apply ext_getD blank
  · rw [length_writeAt (by omega), inner, outer]
  · intro i _
    rw [getD_writeAt (by omega), getD_writeAt (by omega),
      getD_writeAt (by rw [List.length_append]; omega), List.length_append]
    simp only [List.getD_eq_getElem?_getD, List.getElem?_append]
    grind

/-- Writing a buffer from where it was left off. -/
theorem writeAt_take (most : start ≤ stop) (inside : stop ≤ data.length)
    (fits : off + data.length ≤ file.length) :
    writeAt blank (writeAt blank file off (data.take start)) (off + start)
        ((data.drop start).take (stop - start)) =
      writeAt blank file off (data.take stop) := by
  have first : (data.take start).length = start := by
    rw [List.length_take]
    omega
  have second : ((data.drop start).take (stop - start)).length = stop - start := by
    rw [List.length_take, List.length_drop]
    omega
  have room : off + ((data.take start).length + ((data.drop start).take (stop - start)).length) ≤
      file.length := by
    omega
  have both : data.take start ++ (data.drop start).take (stop - start) = data.take stop := by
    rw [← List.take_add, Nat.add_sub_cancel' most]
  have merged := @writeAt_writeAt _ blank _ _ _ _ room
  rwa [first, both] at merged

theorem writeAt_nil (fits : off ≤ file.length) : writeAt blank file off [] = file := by
  simp [writeAt, Nat.sub_eq_zero_of_le fits]

theorem writeAt_blank (fits : off + data.length ≤ file.length)
    (was : BlankOn blank file off (off + data.length)) (is : ∀ cell ∈ data, cell = blank) :
    writeAt blank file off data = file := by
  apply ext_getD blank (length_writeAt fits)
  intro i _
  rw [getD_writeAt fits]
  split
  · rename_i inside
    rw [was i inside.1 inside.2]
    rw [List.getD_eq_getElem _ _ (by omega)]
    exact is _ (List.getElem_mem _)
  · rfl

theorem appendAt_appendAt (fits : stream.length ≤ off) :
    appendAt blank (appendAt blank stream off first) (off + first.length) second =
      appendAt blank stream off (first ++ second) := by
  have reached : (appendAt blank stream off first).length = off + first.length := by
    simp only [appendAt, List.length_append, List.length_replicate]
    omega
  rw [appendAt, reached, Nat.sub_self]
  simp [appendAt]

theorem place_place (fits : Fits seekable out off (first.length + second.length)) :
    place blank seekable (place blank seekable out off first) (off + first.length) second =
      place blank seekable out off (first ++ second) := by
  cases seekable with
  | true => exact writeAt_writeAt fits
  | false => exact appendAt_appendAt fits

theorem InOrder.le (ordered : InOrder start pieces stop) : start ≤ stop := by
  induction pieces generalizing start with
  | nil => exact ordered
  | cons piece rest ih =>
      have := ordered.1
      have := ih ordered.2
      omega

theorem InOrder.mono {earlier : ℕ} (ordered : InOrder start pieces stop) (before : earlier ≤ start) :
    InOrder earlier pieces stop := by
  cases pieces with
  | nil => exact Nat.le_trans before ordered
  | cons piece rest => exact ⟨Nat.le_trans before ordered.1, ordered.2⟩

theorem InOrder.bounds (ordered : InOrder start pieces stop) {piece : ℕ × List α}
    (member : piece ∈ pieces) : start ≤ piece.1 ∧ piece.1 + piece.2.length ≤ stop := by
  induction pieces generalizing start with
  | nil => simp at member
  | cons head rest ih =>
      have first := ordered.1
      rcases List.mem_cons.mp member with rfl | later
      · exact ⟨first, ordered.2.le⟩
      · have := ih ordered.2 later
        omega

theorem InOrder.pairwise (ordered : InOrder start pieces stop) :
    pieces.Pairwise fun first second => first.1 + first.2.length ≤ second.1 := by
  induction pieces generalizing start with
  | nil => exact List.Pairwise.nil
  | cons piece rest ih =>
      exact List.Pairwise.cons (fun _ member => (ordered.2.bounds member).1) (ih ordered.2)

theorem InOrder.append {middle : ℕ} {others : List (ℕ × List α)}
    (ordered : InOrder start pieces middle) (rest : InOrder middle others stop) :
    InOrder start (pieces ++ others) stop := by
  induction pieces generalizing start with
  | nil => exact rest.mono ordered
  | cons piece pieces ih => exact ⟨ordered.1, ih ordered.2⟩

/-- Cells outside the pieces stay, and the file keeps its length. -/
theorem placeAll_outside (ordered : InOrder start pieces file.length) :
    (placeAll blank true file pieces).length = file.length ∧
      ∀ i, (∀ piece ∈ pieces, ¬ inPiece piece i) →
        (placeAll blank true file pieces).getD i blank = file.getD i blank := by
  induction pieces generalizing start file with
  | nil => exact ⟨rfl, fun _ _ => rfl⟩
  | cons piece rest ih =>
      have fits : piece.1 + piece.2.length ≤ file.length := ordered.2.le
      have sameLength : (writeAt blank file piece.1 piece.2).length = file.length :=
        length_writeAt fits
      have after : InOrder (piece.1 + piece.2.length) rest (writeAt blank file piece.1 piece.2).length :=
        sameLength ▸ ordered.2
      obtain ⟨length, others⟩ := ih after
      refine ⟨length.trans sameLength, ?_⟩
      intro i outside
      refine (others i fun later member => outside later (by simp [member])).trans ?_
      rw [getD_writeAt fits]
      exact if_neg (outside piece (by simp))

theorem placeAll_inside (ordered : InOrder start pieces file.length) {piece : ℕ × List α}
    (member : piece ∈ pieces) {i : ℕ} (inside : inPiece piece i) :
    (placeAll blank true file pieces).getD i blank = piece.2.getD (i - piece.1) blank := by
  induction pieces generalizing start file with
  | nil => simp at member
  | cons head rest ih =>
      have fits : head.1 + head.2.length ≤ file.length := ordered.2.le
      have sameLength : (writeAt blank file head.1 head.2).length = file.length :=
        length_writeAt fits
      have after : InOrder (head.1 + head.2.length) rest (writeAt blank file head.1 head.2).length :=
        sameLength ▸ ordered.2
      rcases List.mem_cons.mp member with rfl | later
      · -- Later pieces start behind this one and leave its cells alone.
        refine ((placeAll_outside after).2 i ?_).trans ?_
        · intro other otherMember otherInside
          have := (after.bounds otherMember).1
          have := otherInside.1
          have := inside.2
          omega
        · rw [getD_writeAt fits]
          exact if_pos inside
      · exact ih after later

theorem writeAt_padded (before : stream.length ≤ off) (fits : off + data.length ≤ stop) :
    writeAt blank (stream ++ List.replicate (stop - stream.length) blank) off data =
      appendAt blank stream off data ++
        List.replicate (stop - (appendAt blank stream off data).length) blank := by
  have reached : (appendAt blank stream off data).length = off + data.length := by
    simp only [appendAt, List.length_append, List.length_replicate]
    omega
  have file : (stream ++ List.replicate (stop - stream.length) blank).length = stop := by
    simp only [List.length_append, List.length_replicate]
    omega
  have room : off - stop = 0 := by omega
  have gap : min (off - stream.length) (stop - stream.length) = off - stream.length := by omega
  have tail : stop - stream.length - (off + data.length - stream.length) = stop - (off + data.length) := by
    omega
  rw [writeAt, file, room, List.replicate_zero, List.append_nil, reached, appendAt,
    List.take_append, List.take_of_length_le before, List.drop_append,
    List.drop_eq_nil_of_le (by omega), List.take_replicate, List.drop_replicate, List.nil_append, gap,
    tail]

/-- A stream with the pieces appended in order, padded to the end, is the file with the pieces
written into blanks. -/
theorem placeAll_sequential (ordered : InOrder start pieces stop) (behind : stream.length ≤ start) :
    placeAll blank false stream pieces ++
        List.replicate (stop - (placeAll blank false stream pieces).length) blank =
      placeAll blank true (stream ++ List.replicate (stop - stream.length) blank) pieces := by
  induction pieces generalizing start stream with
  | nil => rfl
  | cons piece rest ih =>
      have before : stream.length ≤ piece.1 := Nat.le_trans behind ordered.1
      have reached : (appendAt blank stream piece.1 piece.2).length ≤ piece.1 + piece.2.length := by
        simp only [appendAt, List.length_append, List.length_replicate]
        omega
      have next := ih ordered.2 reached
      rw [← writeAt_padded before ordered.2.le] at next
      exact next

end Extents
