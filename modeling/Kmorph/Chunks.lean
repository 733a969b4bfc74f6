import Mathlib.Data.List.Basic

/-!
Lists cut into chunks that carry their own length. A delimiter reads the length of
the first chunk off the front of a list and looks no further than that chunk, so
what follows a chunk never changes how it is cut.
-/

namespace Chunks

variable {β : Type*}

/-- The length of the first chunk, 0 where there is none. -/
structure Delimiter (β : Type*) where
  size : List β → ℕ
  size_le : ∀ buf, size buf ≤ buf.length
  stable : ∀ buf rest, size buf ≠ 0 → size (buf.take (size buf) ++ rest) = size buf

def Delimiter.chunks (d : Delimiter β) (buf : List β) : List (List β) :=
  if d.size buf = 0 then [] else buf.take (d.size buf) :: d.chunks (buf.drop (d.size buf))
termination_by buf.length
decreasing_by
  have := d.size_le buf
  rw [List.length_drop]
  omega

/-- What is left behind the last chunk. -/
def Delimiter.rest (d : Delimiter β) (buf : List β) : List β :=
  buf.drop (d.chunks buf).flatten.length

/-- One whole chunk and nothing else. -/
structure Delimiter.IsChunk (d : Delimiter β) (chunk : List β) : Prop where
  nonempty : chunk ≠ []
  whole : d.size chunk = chunk.length

variable {d : Delimiter β}

theorem Delimiter.IsChunk.size_append {chunk : List β} (isChunk : d.IsChunk chunk)
    (rest : List β) : d.size (chunk ++ rest) = chunk.length := by
  have nonzero : d.size chunk ≠ 0 := by
    rw [isChunk.whole]
    exact fun empty => isChunk.nonempty (List.length_eq_zero_iff.mp empty)
  have kept := d.stable chunk rest nonzero
  rwa [isChunk.whole, List.take_length] at kept

theorem Delimiter.isChunk_take {buf : List β} (found : d.size buf ≠ 0) :
    d.IsChunk (buf.take (d.size buf)) := by
  have length : (buf.take (d.size buf)).length = d.size buf :=
    List.length_take_of_le (d.size_le buf)
  refine ⟨fun empty => found ?_, ?_⟩
  · rw [← length, empty, List.length_nil]
  · have kept := d.stable buf [] found
    rw [List.append_nil] at kept
    rw [kept, length]

theorem Delimiter.chunks_of_size_zero {buf : List β} (none : d.size buf = 0) :
    d.chunks buf = [] := by
  rw [chunks, if_pos none]

theorem Delimiter.chunks_of_size {buf : List β} (found : d.size buf ≠ 0) :
    d.chunks buf = buf.take (d.size buf) :: d.chunks (buf.drop (d.size buf)) := by
  rw [chunks, if_neg found]

theorem Delimiter.rest_of_size_zero {buf : List β} (none : d.size buf = 0) : d.rest buf = buf := by
  rw [rest, chunks_of_size_zero none]
  rfl

theorem Delimiter.rest_of_size {buf : List β} (found : d.size buf ≠ 0) :
    d.rest buf = d.rest (buf.drop (d.size buf)) := by
  rw [rest, chunks_of_size found, List.flatten_cons, List.length_append,
    List.length_take_of_le (d.size_le buf), ← List.drop_drop, rest]

theorem Delimiter.IsChunk.chunks_append {chunk : List β} (isChunk : d.IsChunk chunk)
    (rest : List β) : d.chunks (chunk ++ rest) = chunk :: d.chunks rest := by
  have size := isChunk.size_append rest
  have nonzero : d.size (chunk ++ rest) ≠ 0 := by
    rw [size]
    exact fun empty => isChunk.nonempty (List.length_eq_zero_iff.mp empty)
  rw [chunks_of_size nonzero, size, List.take_left, List.drop_left]

theorem Delimiter.chunks_flatten_append {parts : List (List β)}
    (each : ∀ part ∈ parts, d.IsChunk part) (rest : List β) :
    d.chunks (parts.flatten ++ rest) = parts ++ d.chunks rest := by
  induction parts with
  | nil => rfl
  | cons part parts ih =>
      rw [List.flatten_cons, List.append_assoc, (each part (by simp)).chunks_append,
        ih fun other member => each other (by simp [member]), List.cons_append]

theorem Delimiter.isChunk_of_mem {buf chunk : List β} (member : chunk ∈ d.chunks buf) :
    d.IsChunk chunk := by
  induction buf using Delimiter.chunks.induct d with
  | case1 buf none =>
      rw [chunks_of_size_zero none] at member
      simp at member
  | case2 buf found ih =>
      rw [chunks_of_size found] at member
      rcases List.mem_cons.mp member with rfl | later
      · exact isChunk_take found
      · exact ih later

theorem Delimiter.flatten_append_rest (d : Delimiter β) (buf : List β) :
    (d.chunks buf).flatten ++ d.rest buf = buf := by
  induction buf using Delimiter.chunks.induct d with
  | case1 buf none =>
      rw [chunks_of_size_zero none, rest_of_size_zero none]
      rfl
  | case2 buf found ih =>
      rw [chunks_of_size found, rest_of_size found, List.flatten_cons, List.append_assoc, ih,
        List.take_append_drop]

theorem Delimiter.chunks_flatten {parts : List (List β)} (each : ∀ part ∈ parts, d.IsChunk part) :
    d.chunks parts.flatten = parts := by
  have empty : d.size [] = 0 := Nat.le_zero.mp (d.size_le [])
  have cut := chunks_flatten_append each []
  rwa [List.append_nil, chunks_of_size_zero empty, List.append_nil] at cut

/-- No longer front of a list is a sequence of chunks than the one `chunks` finds. -/
theorem Delimiter.length_flatten_le {buf rest : List β} {parts : List (List β)}
    (each : ∀ part ∈ parts, d.IsChunk part) (front : buf = parts.flatten ++ rest) :
    parts.flatten.length ≤ (d.chunks buf).flatten.length := by
  rw [front, chunks_flatten_append each, List.flatten_append, List.length_append]
  omega

end Chunks
