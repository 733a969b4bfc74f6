import Kmorph.Newc

/-!
Archives one behind the other, as an initial file system is unpacked from them: each
starts at a multiple of four, and zeros between them are skipped.
-/

namespace Newc

def unpackFrom (buf : List UInt8) : ℕ → ℕ → Option (List Entry)
  | 0, _ => none
  | fuel + 1, offset =>
      match buf[offset]? with
      | none => some []
      | some b =>
          if b = 0 then unpackFrom buf fuel (offset + 1)
          else if offset % 4 ≠ 0 then none
          else do
            let (entries, _, after) ← read buf offset
            let more ← unpackFrom buf fuel after
            return entries.map Prod.snd ++ more

/-- The entries of all archives. -/
def unpack (buf : List UInt8) : Option (List Entry) := unpackFrom buf (buf.length + 1) 0

/-- From the offset on, these entries are unpacked. -/
def Unpacks (buf : List UInt8) (offset : ℕ) (es : List Entry) : Prop :=
  ∀ fuel, buf.length ≤ offset + fuel → unpackFrom buf (fuel + 1) offset = some es

section Rules

variable {buf front rest : List UInt8} {offset : ℕ} {es entries : List Entry} {trailer : Entry}

theorem Unpacks.unpack (unpacks : Unpacks buf 0 es) : unpack buf = some es :=
  unpacks buf.length (by omega)

theorem Unpacks.stop (ended : buf.length ≤ offset) : Unpacks buf offset [] := by
  intro fuel _
  rw [unpackFrom, List.getElem?_eq_none ended]

theorem Unpacks.zero (first : buf[offset]? = some 0) (later : Unpacks buf (offset + 1) es) :
    Unpacks buf offset es := by
  intro fuel enough
  have inside := (List.getElem?_eq_some_iff.mp first).1
  obtain ⟨fuel, rfl⟩ : ∃ less, fuel = less + 1 := ⟨fuel - 1, by omega⟩
  rw [unpackFrom, first]
  exact later fuel (by omega)

theorem Unpacks.zeros {n : ℕ} (split : buf = front ++ (List.replicate n 0 ++ rest))
    (later : Unpacks buf (front.length + n) es) : Unpacks buf front.length es := by
  induction n generalizing front with
  | zero => exact later
  | succ n ih =>
      refine Unpacks.zero (by simp [split, List.replicate_succ]) ?_
      have next := @ih (front ++ [0]) (by rw [split, List.replicate_succ]; simp)
        (by rw [List.length_append, List.length_singleton, Nat.add_assoc, Nat.add_comm 1]; exact later)
      rwa [List.length_append, List.length_singleton] at next

theorem encode_head (e : Entry) : (encode e).head? = some 48 := rfl

theorem archive_head (entries : List Entry) (trailer : Entry) (rest : List UInt8) :
    (entries.flatMap encode ++ (encode trailer ++ rest)).head? = some 48 := by
  cases entries with
  | nil => rfl
  | cons e entries => simp [List.head?_append, encode_head]

theorem Unpacks.archive (split : buf = front ++ (entries.flatMap encode ++ (encode trailer ++ rest)))
    (aligned : 4 ∣ front.length) (fits : ∀ e ∈ entries, e.Fits) (named : ∀ e ∈ entries, e.name ≠ TRAILER)
    (trailerFits : trailer.Fits) (isTrailer : trailer.name = TRAILER)
    (later : Unpacks buf (front.length + (entries.flatMap encode).length + (encode trailer).length) es) :
    Unpacks buf front.length (entries ++ es) := by
  intro fuel enough
  have first : buf[front.length]? = some 48 := by
    rw [split, List.getElem?_append_right (Nat.le_refl _), Nat.sub_self, ← List.head?_eq_getElem?, archive_head]
  have inside := (List.getElem?_eq_some_iff.mp first).1
  have positive : 0 < (encode trailer).length := by
    have := (align_eq (HEADER + (trailer.name.length + 1))).1
    rw [length_encode]
    omega
  obtain ⟨fuel, rfl⟩ : ∃ less, fuel = less + 1 := ⟨fuel - 1, by omega⟩
  have found := read_encode aligned fits named trailerFits isTrailer rest
  rw [← split] at found
  rw [unpackFrom, first]
  simp only [found, later fuel (by omega), Nat.mod_eq_zero_of_dvd aligned, Option.bind_eq_bind, Option.bind_some,
    placed_map_snd]
  rfl

end Rules

end Newc
