import Kmorph.DumpCore
import Kmorph.Ranges

/-!
The bytes of a crash dump. The header and the ranges are pieces of the file in
order; holes on a regular file and filled gaps on a stream leave the same bytes.
-/

namespace Kmorph

open Extents Records

theorem and_mask_toNat {mask : UInt64} {k : ℕ}
    (bits : ∀ i : Fin 64, mask.toBitVec.getLsbD i = decide (k ≤ i.val)) (v : UInt64) :
    (v &&& mask).toNat = v.toNat / 2 ^ k * 2 ^ k := by
  apply Nat.eq_of_testBit_eq
  intro i
  rw [UInt64.toNat_and, Nat.testBit_and, Nat.testBit_mul_two_pow, Nat.testBit_div_two_pow]
  by_cases inside : i < 64
  · have bit := bits ⟨i, inside⟩
    rw [BitVec.getLsbD] at bit
    rw [← UInt64.toNat_toBitVec mask, bit]
    by_cases low : k ≤ i
    · simp [low]
    · simp [low]
  · have high : v.toNat.testBit i = false :=
      Nat.testBit_lt_two_pow (lt_of_lt_of_le v.toNat_lt (Nat.pow_le_pow_right (by omega) (by omega)))
    by_cases low : k ≤ i
    · simp [high, low]
    · simp [high, low]

theorem and_not_page (v : UInt64) : (v &&& ~~~(ELFCORE_PAGE - 1)).toNat = v.toNat / 4096 * 4096 :=
  @and_mask_toNat _ 12 (by decide) v

theorem pageAlign_toNat {v : UInt64} (fits : v.toNat + 4095 < 2 ^ 64) :
    (pageAlign v).toNat = (v.toNat + 4095) / 4096 * 4096 := by
  have page : ELFCORE_PAGE.toNat = 4096 := rfl
  have rounded : (v + ELFCORE_PAGE - 1).toNat = v.toNat + 4095 := by
    rw [UInt64.toNat_sub, UInt64.toNat_add, page, UInt64.toNat_one]
    omega
  rw [pageAlign, and_not_page, rounded]

def delivered (seekable : Bool) (out : List UInt8) (off : ℕ) (buf : List UInt8) : List UInt8 :=
  if seekable then writeAt 0 out off buf else out ++ buf

theorem delivered_nil {seekable : Bool} {out : List UInt8} {off : ℕ}
    (fits : seekable = true → off ≤ out.length) : delivered seekable out off [] = out := by
  cases seekable with
  | true => exact writeAt_nil (fits rfl)
  | false => exact List.append_nil out

theorem delivered_delivered {seekable : Bool} {out first second : List UInt8} {off : ℕ}
    (fits : seekable = true → off + (first.length + second.length) ≤ out.length) :
    delivered seekable (delivered seekable out off first) (off + first.length) second =
      delivered seekable out off (first ++ second) := by
  cases seekable with
  | true => exact writeAt_writeAt (fits rfl)
  | false => exact List.append_assoc out first second

theorem writeAll_out {seekable : Bool} {answers left : List WriteAnswer} {out after buf : List UInt8}
    {off : UInt64} (bound : off.toNat + buf.length < 2 ^ 64)
    (fits : seekable = true → off.toNat + buf.length ≤ out.length)
    (done : writeAll seekable out answers buf off = some (0, after, left)) :
    after = delivered seekable out off.toNat buf := by
  induction answers generalizing out buf off with
  | nil =>
      cases buf with
      | nil =>
          simp only [writeAll, Option.some.injEq, Prod.mk.injEq] at done
          exact done.2.1.symm.trans (delivered_nil fits).symm
      | cons byte buf => simp [writeAll] at done
  | cons answer answers ih =>
      cases buf with
      | nil =>
          simp only [writeAll, Option.some.injEq, Prod.mk.injEq] at done
          exact done.2.1.symm.trans (delivered_nil fits).symm
      | cons byte buf =>
          cases answer with
          | interrupted => exact ih bound fits done
          | failed errno nonzero =>
              simp only [writeAll, Option.some.injEq, Prod.mk.injEq] at done
              omega
          | wrote n =>
              simp only [writeAll] at done
              split at done
              · simp [ EIO] at done
              · have split := List.take_append_drop n (byte :: buf)
                generalize (byte :: buf).take n = first at *
                generalize (byte :: buf).drop n = second at *
                rw [← split, List.length_append] at bound fits
                have next : (off + UInt64.ofNat first.length).toNat = off.toNat + first.length := by
                  rw [UInt64.toNat_add, UInt64.toNat_ofNat']
                  omega
                have same := ih (by omega) (by
                  intro seek
                  have := fits seek
                  simp only [seek, ↓reduceIte]
                  rw [length_writeAt (by omega), next]
                  omega) done
                rw [same, next, ← split]
                exact delivered_delivered fits

/-- The position of a stream is the number of bytes written to it. -/
def Tracks (s : Sink) : Prop := s.seekable = false → s.pos.toNat = s.out.length

/-- One piece was put at its offset. -/
structure Placed (s after : Sink) (off : ℕ) (data : List UInt8) : Prop where
  seekable : after.seekable = s.seekable
  out : after.out = place 0 s.seekable s.out off data
  tracks : Tracks after

theorem Sink.writeAll_done {s after : Sink} {buf : List UInt8} {off : UInt64}
    (bound : off.toNat + buf.length < 2 ^ 64)
    (fits : s.seekable = true → off.toNat + buf.length ≤ s.out.length)
    (done : s.writeAll buf off = some (0, after)) :
    after.seekable = s.seekable ∧ after.pos = s.pos ∧
      after.out = delivered s.seekable s.out off.toNat buf := by
  rw [Sink.writeAll, Option.map_eq_some_iff] at done
  obtain ⟨⟨ret, out, answers⟩, wrote, same⟩ := done
  obtain ⟨rfl, rfl⟩ := Prod.mk.inj same
  exact ⟨rfl, rfl, writeAll_out bound fits wrote⟩

theorem gap_bounds {pos off : UInt64} (before : pos < off) :
    0 < (if off - pos < ELFCORE_PAGE then off - pos else ELFCORE_PAGE).toNat ∧
      (if off - pos < ELFCORE_PAGE then off - pos else ELFCORE_PAGE).toNat ≤
        off.toNat - pos.toNat := by
  have page : ELFCORE_PAGE.toNat = 4096 := rfl
  have less := UInt64.lt_iff_toNat_lt.mp before
  have size : (off - pos).toNat = off.toNat - pos.toNat :=
    UInt64.toNat_sub_of_le _ _ (UInt64.le_of_lt before)
  split
  · omega
  · rename_i large
    rw [UInt64.lt_iff_toNat_lt] at large
    omega

theorem fillGap_done {s after : Sink} {off : UInt64} (sequential : s.seekable = false)
    (tracks : s.pos.toNat = s.out.length) (done : fillGap s off = some (0, after)) :
    after.seekable = false ∧ after.pos.toNat = after.out.length ∧
      after.out = s.out ++ List.replicate (off.toNat - s.out.length) 0 := by
  induction left : off.toNat - s.pos.toNat using Nat.strong_induction_on generalizing s with
  | _ left ih =>
      have bound := off.toNat_lt
      rw [fillGap] at done
      split at done
      · rename_i before
        have less := UInt64.lt_iff_toNat_lt.mp before
        have gapBound := gap_bounds before
        generalize (if off - s.pos < ELFCORE_PAGE then off - s.pos else ELFCORE_PAGE) = gap at *
        simp only at done
        split at done
        · simp at done
        · rename_i ret filled wrote
          split at done
          · rename_i failed
            exact absurd (congrArg Prod.fst (Option.some.inj done)) failed
          · rename_i succeeded
            rw [not_not.mp succeeded] at wrote
            obtain ⟨kind, -, out⟩ := Sink.writeAll_done (by simp; omega) (by simp [sequential]) wrote
            rw [sequential] at kind out
            have outLength : filled.out.length = s.out.length + gap.toNat := by
              simp [out, delivered]
            have pos : (s.pos + gap).toNat = s.pos.toNat + gap.toNat := by
              rw [UInt64.toNat_add]
              omega
            obtain ⟨kept, tracked, whole⟩ := ih (off.toNat - (s.pos + gap).toNat) (by omega)
              (s := { filled with pos := s.pos + gap }) kind (by simp only; omega) done rfl
            refine ⟨kept, tracked, whole.trans ?_⟩
            simp only [out, delivered, Bool.false_eq_true, ↓reduceIte, List.append_assoc,
              List.length_append, List.length_replicate, List.append_cancel_left_eq]
            rw [List.replicate_append_replicate]
            congr 1
            omega
      · rename_i reached
        obtain ⟨-, rfl⟩ := Prod.mk.inj (Option.some.inj done)
        have past : off.toNat - s.out.length = 0 := by
          rw [UInt64.lt_iff_toNat_lt] at reached
          omega
        exact ⟨sequential, tracks, by simp [past]⟩

theorem sinkWrite_done {s after : Sink} {buf : List UInt8} {off : UInt64} (tracks : Tracks s)
    (bound : off.toNat + buf.length < 2 ^ 64)
    (fits : Fits s.seekable s.out off.toNat buf.length)
    (done : sinkWrite s buf off = some (0, after)) : Placed s after off.toNat buf := by
  rw [sinkWrite] at done
  split at done
  · rename_i seek
    rw [seek] at fits
    obtain ⟨kind, -, out⟩ := Sink.writeAll_done bound (fun _ => fits) done
    refine ⟨kind, ?_, ?_⟩
    · rw [out, seek]
      rfl
    · intro sequential
      simp [kind, seek] at sequential
  · rename_i sequential
    rw [Bool.not_eq_true] at sequential
    rw [sequential] at fits
    have behind : s.out.length ≤ off.toNat := fits
    split at done
    · simp at done
    · rename_i ret filled gap
      split at done
      · rename_i failed
        exact absurd (congrArg Prod.fst (Option.some.inj done)) failed
      · rename_i succeeded
        rw [not_not.mp succeeded] at gap
        obtain ⟨kind, tracked, padded⟩ := fillGap_done sequential (tracks sequential) gap
        obtain ⟨same, pos, out⟩ := Sink.writeAll_done bound (by simp [kind]) done
        have reached : filled.out.length = off.toNat := by
          rw [padded, List.length_append, List.length_replicate]
          omega
        simp only [kind, delivered, Bool.false_eq_true, ↓reduceIte] at same pos out
        refine ⟨same.trans sequential.symm, ?_, ?_⟩
        · rw [out, padded, sequential]
          rfl
        · intro _
          rw [pos, out, List.length_append, UInt64.toNat_add, UInt64.toNat_ofNat']
          omega

/-- A buffer on its way into a regular file that is blank where the buffer goes. -/
structure IntoHole (file buf : List UInt8) (off : UInt64) : Prop where
  bound : off.toNat + buf.length < 2 ^ 64
  fits : off.toNat + buf.length ≤ file.length
  hole : BlankOn 0 file off.toNat (off.toNat + buf.length)

/-- The first `start` bytes of the buffer are in the file. -/
structure WrittenTo (file buf : List UInt8) (off : UInt64) (start : ℕ) (s : Sink) : Prop where
  seekable : s.seekable = true
  inside : start ≤ buf.length
  out : s.out = writeAt 0 file off.toNat (buf.take start)

section Chunk

variable {file buf : List UInt8} {off : UInt64} {start stop i : ℕ} {s after : Sink}

theorem WrittenTo.run (into : IntoHole file buf off) (written : WrittenTo file buf off start s)
    (ordered : start ≤ stop) (inside : stop ≤ buf.length)
    (done : sinkWrite s ((buf.drop start).take (stop - start)) (off + UInt64.ofNat start) =
      some (0, after)) : WrittenTo file buf off stop after := by
  have bound := into.bound
  have fits := into.fits
  have startOff : (off + UInt64.ofNat start).toNat = off.toNat + start := by
    rw [UInt64.toNat_add, UInt64.toNat_ofNat']
    omega
  have runLength : ((buf.drop start).take (stop - start)).length = stop - start := by
    rw [List.length_take, List.length_drop]
    omega
  have sameLength : s.out.length = file.length := by
    rw [written.out]
    exact length_writeAt (by rw [List.length_take]; omega)
  have room : Fits s.seekable s.out (off + UInt64.ofNat start).toNat
      ((buf.drop start).take (stop - start)).length := by
    rw [written.seekable, Fits, if_pos rfl]
    omega
  have placed := sinkWrite_done (by simp [Tracks, written.seekable]) (by omega) room done
  refine ⟨placed.seekable.trans written.seekable, inside, ?_⟩
  rw [placed.out, written.seekable, place, if_pos rfl, written.out, startOff,
    writeAt_take ordered inside fits]

theorem WrittenTo.skip (into : IntoHole file buf off) (written : WrittenTo file buf off start s)
    (ordered : start ≤ stop) (inside : stop ≤ buf.length)
    (zero : ∀ byte ∈ (buf.drop start).take (stop - start), byte = 0) :
    WrittenTo file buf off stop s := by
  have fits := into.fits
  have runLength : ((buf.drop start).take (stop - start)).length = stop - start := by
    rw [List.length_take, List.length_drop]
    omega
  have startLength : (buf.take start).length = start := by
    rw [List.length_take]
    omega
  refine ⟨written.seekable, inside, ?_⟩
  rw [← writeAt_take ordered inside fits, ← written.out, writeAt_blank _ _ zero]
  · rw [written.out, length_writeAt (by omega)]
    omega
  · intro j lower upper
    rw [written.out, getD_writeAt (by omega), if_neg (by omega)]
    exact into.hole j (by omega) (by omega)

theorem WrittenTo.flush (into : IntoHole file buf off) (written : WrittenTo file buf off start s)
    (ordered : start ≤ i) (inside : i ≤ buf.length)
    (done : (if i > start then
      sinkWrite s ((buf.drop start).take (i - start)) (off + UInt64.ofNat start)
      else some (0, s)) = some (0, after)) : WrittenTo file buf off i after := by
  split at done
  · exact written.run into ordered inside done
  · obtain ⟨-, rfl⟩ := Prod.mk.inj (Option.some.inj done)
    obtain rfl : start = i := by omega
    exact written

theorem chunkLoop_done (into : IntoHole file buf off) (written : WrittenTo file buf off start s)
    (ordered : start ≤ i) (done : chunkLoop buf off start i s = some (0, after)) :
    WrittenTo file buf off buf.length after := by
  induction left : buf.length - i using Nat.strong_induction_on generalizing start i s with
  | _ left ih =>
      have page : ELFCORE_PAGE.toNat = 4096 := rfl
      rw [chunkLoop] at done
      split at done
      · rename_i more
        simp only at done
        split at done
        · rename_i zero
          have pageLength : i + 4096 ≤ buf.length := by
            have := zero.1
            rw [page, List.length_take, List.length_drop] at this
            omega
          split at done
          · simp at done
          · rename_i ret flushed wrote
            split at done
            · rename_i failed
              exact absurd (congrArg Prod.fst (Option.some.inj done)) failed
            · rename_i succeeded
              rw [not_not.mp succeeded] at wrote
              have upTo := written.flush into ordered (by omega) wrote
              rw [zero.1, page] at done
              refine ih (buf.length - (i + 4096)) (by omega) ?_ (Nat.le_refl _) done rfl
              refine upTo.skip into (by omega) pageLength ?_
              have zeros := of_decide_eq_true zero.2
              rw [page] at zeros
              rw [Nat.add_sub_cancel_left, zeros]
              exact fun byte member => List.eq_of_mem_replicate member
        · rw [page] at done
          exact ih (buf.length - (i + 4096)) (by omega) written (by omega) done rfl
      · split at done
        · have whole : (buf.drop start).take (buf.length - start) = buf.drop start := by
            rw [← List.length_drop, List.take_length]
          rw [← whole] at done
          exact written.run into written.inside (Nat.le_refl _) done
        · obtain ⟨-, rfl⟩ := Prod.mk.inj (Option.some.inj done)
          have inside := written.inside
          obtain rfl : start = buf.length := by omega
          exact written

end Chunk

/-- Where a piece may go: it fits, and on a regular file nothing was written there. -/
structure Room (s : Sink) (off : UInt64) (len : ℕ) : Prop where
  tracks : Tracks s
  bound : off.toNat + len < 2 ^ 64
  fits : Fits s.seekable s.out off.toNat len
  hole : s.seekable = true → BlankOn 0 s.out off.toNat (off.toNat + len)

theorem Room.mono {s : Sink} {off : UInt64} {len less : ℕ} (room : Room s off len)
    (fewer : less ≤ len) : Room s off less := by
  have bound := room.bound
  have fits := room.fits
  refine ⟨room.tracks, by omega, ?_, fun seek i lower upper => room.hole seek i lower (by omega)⟩
  unfold Fits at fits ⊢
  split at fits
  · rw [if_pos ‹_›]
    omega
  · rwa [if_neg ‹_›]

theorem writeChunk_done {s after : Sink} {buf : List UInt8} {off : UInt64}
    (room : Room s off buf.length) (done : writeChunk s buf off = some (0, after)) :
    Placed s after off.toNat buf := by
  rw [writeChunk] at done
  split at done
  · rename_i seek
    have fits := room.fits
    rw [seek, Fits, if_pos rfl] at fits
    have start : WrittenTo s.out buf off 0 s :=
      ⟨seek, Nat.zero_le _, (writeAt_nil (by omega)).symm⟩
    have written := chunkLoop_done ⟨room.bound, fits, room.hole seek⟩ start (Nat.le_refl 0) done
    refine ⟨written.seekable.trans seek.symm, ?_, ?_⟩
    · rw [written.out, List.take_length, seek]
      rfl
    · simp [Tracks, written.seekable]
  · exact sinkWrite_done room.tracks room.bound room.fits done

theorem Placed.room {s after : Sink} {off next : UInt64} {data : List UInt8} {len : ℕ}
    (placed : Placed s after off.toNat data) (room : Room s off (data.length + len))
    (behind : next.toNat = off.toNat + data.length) : Room after next len := by
  have bound := room.bound
  have fits := room.fits
  have out := placed.out
  cases seek : s.seekable with
  | true =>
      rw [seek, Fits, if_pos rfl] at fits
      rw [seek, place, if_pos rfl] at out
      have sameLength : after.out.length = s.out.length := by
        rw [out, length_writeAt (by omega)]
      refine ⟨placed.tracks, by omega, ?_, ?_⟩
      · rw [placed.seekable, seek, Fits, if_pos rfl]
        omega
      · intro _ i lower upper
        rw [out, getD_writeAt (by omega), if_neg (by omega)]
        exact room.hole seek i (by omega) (by omega)
  | false =>
      rw [seek, Fits, if_neg (by simp)] at fits
      rw [seek, place, if_neg (by simp)] at out
      refine ⟨placed.tracks, by omega, ?_, by simp [placed.seekable, seek]⟩
      rw [placed.seekable, seek, Fits, if_neg (by simp), out]
      simp only [appendAt, List.length_append, List.length_replicate]
      omega

theorem Placed.append {s middle after : Sink} {off : ℕ} {first second : List UInt8}
    (placed : Placed s middle off first) (next : Placed middle after (off + first.length) second)
    (fits : Fits s.seekable s.out off (first.length + second.length)) :
    Placed s after off (first ++ second) := by
  refine ⟨next.seekable.trans placed.seekable, ?_, next.tracks⟩
  rw [next.out, placed.seekable, placed.out, place_place fits]

def slice (mem : ℕ → UInt8) (base len : ℕ) : List UInt8 :=
  (List.range len).map fun i => mem (base + i)

@[simp] theorem length_slice (mem : ℕ → UInt8) (base len : ℕ) : (slice mem base len).length = len := by
  simp [slice]

theorem slice_add (mem : ℕ → UInt8) (base first second : ℕ) :
    slice mem base (first + second) = slice mem base first ++ slice mem (base + first) second := by
  simp [slice, List.range_add, Nat.add_assoc]

theorem getD_slice (mem : ℕ → UInt8) (base : ℕ) {len i : ℕ} (inside : i < len) :
    (slice mem base len).getD i 0 = mem (base + i) := by
  simp [slice, inside]

theorem sourceRead_ok {src : Source} {len : ℕ} {off : UInt64} {buf : List UInt8}
    (read : sourceRead src len off = .ok buf) :
    buf = slice src.mem off.toNat len ∧ off.toNat + len ≤ OFFSET_MAX := by
  unfold sourceRead at read
  split at read
  · simp at read
  · split at read
    · simp at read
    · split at read
      · simp at read
      · rename_i within _
        exact ⟨(Except.ok.inj read).symm, Nat.le_of_not_lt within⟩

theorem sourceRead_error {src : Source} {len : ℕ} {off : UInt64} {ret : Int}
    (failed : sourceRead src len off = .error ret) : ret ≠ 0 := by
  unfold sourceRead at failed
  split at failed
  · simp [← Except.error.inj failed, EIO]
  · split at failed
    · simp [← Except.error.inj failed, EOVERFLOW]
    · split at failed
      · rename_i refused
        exact Except.error.inj failed ▸ refused
      · simp at failed

/-- One round of a `copy_range` that succeeds. -/
structure CopyStep (src : Source) (base size off : UInt64) (s after : Sink) (chunk : UInt64)
    (middle : Sink) : Prop where
  some : 0 < chunk.toNat
  most : chunk.toNat ≤ size.toNat
  within : base.toNat + chunk.toNat ≤ OFFSET_MAX
  wrote : writeChunk s (slice src.mem base.toNat chunk.toNat) off = Option.some (0, middle)
  rest : copyRange src (base + chunk) (size - chunk) (off + chunk) middle = Option.some (0, after)

theorem copyRange_step {src : Source} {base size off : UInt64} {s after : Sink} (more : size ≠ 0)
    (done : copyRange src base size off s = some (0, after)) :
    ∃ chunk middle, CopyStep src base size off s after chunk middle := by
  have want : 0 < (if size < DUMP_CHUNK then size else DUMP_CHUNK).toNat ∧
      (if size < DUMP_CHUNK then size else DUMP_CHUNK).toNat ≤ size.toNat := by
    have chunk : DUMP_CHUNK.toNat = 0x100000 := rfl
    have : size.toNat ≠ 0 := fun zero => more (UInt64.toNat_inj.mp zero)
    split
    · omega
    · rename_i large
      rw [UInt64.lt_iff_toNat_lt] at large
      omega
  rw [copyRange, if_pos more] at done
  generalize (if size < DUMP_CHUNK then size else DUMP_CHUNK) = chunk at *
  simp only at done
  split at done
  · rename_i ret failed
    exact absurd (congrArg Prod.fst (Option.some.inj done)) (sourceRead_error failed)
  · rename_i buf read
    obtain ⟨rfl, within⟩ := sourceRead_ok read
    split at done
    · simp at done
    · rename_i ret middle wrote
      split at done
      · rename_i failed
        exact absurd (congrArg Prod.fst (Option.some.inj done)) failed
      · rename_i succeeded
        rw [not_not.mp succeeded] at wrote
        exact ⟨chunk, middle, want.1, want.2, within, wrote, done⟩

theorem CopyStep.size {src : Source} {base size off chunk : UInt64} {s after middle : Sink}
    (step : CopyStep src base size off s after chunk middle) :
    (size - chunk).toNat = size.toNat - chunk.toNat :=
  UInt64.toNat_sub_of_le _ _ (UInt64.le_iff_toNat_le.mpr step.most)

theorem copyRange_within {src : Source} {base size off : UInt64} {s after : Sink} (more : size ≠ 0)
    (noWrap : base.toNat + size.toNat < 2 ^ 64)
    (done : copyRange src base size off s = some (0, after)) :
    base.toNat + size.toNat ≤ OFFSET_MAX := by
  induction left : size.toNat using Nat.strong_induction_on generalizing base size off s with
  | _ left ih =>
      obtain ⟨chunk, middle, step⟩ := copyRange_step more done
      have some := step.some
      have most := step.most
      have rest := step.size
      by_cases last : size - chunk = 0
      · have := step.within
        rw [last, UInt64.toNat_zero] at rest
        omega
      · have base' : (base + chunk).toNat = base.toNat + chunk.toNat := by
          rw [UInt64.toNat_add]
          omega
        have := ih (size - chunk).toNat (by omega) last (by omega) step.rest rfl
        omega

theorem copyRange_none (src : Source) (base off : UInt64) (s : Sink) :
    copyRange src base 0 off s = some (0, s) := by
  rw [copyRange, if_neg (by simp)]

theorem copyRange_done {src : Source} {base size off : UInt64} {s after : Sink} (more : size ≠ 0)
    (room : Room s off size.toNat) (noWrap : base.toNat + size.toNat < 2 ^ 64)
    (done : copyRange src base size off s = some (0, after)) :
    Placed s after off.toNat (slice src.mem base.toNat size.toNat) := by
  induction left : size.toNat using Nat.strong_induction_on generalizing base size off s with
  | _ left ih =>
      subst left
      obtain ⟨chunk, middle, step⟩ := copyRange_step more done
      have some := step.some
      have most := step.most
      have bound := room.bound
      have split : size.toNat = chunk.toNat + (size - chunk).toNat := by
        rw [step.size]
        omega
      have baseNext : (base + chunk).toNat = base.toNat + chunk.toNat := by
        rw [UInt64.toNat_add]
        omega
      have offNext : (off + chunk).toNat = off.toNat + chunk.toNat := by
        rw [UInt64.toNat_add]
        omega
      have first : Placed s middle off.toNat (slice src.mem base.toNat chunk.toNat) := by
        refine writeChunk_done ?_ step.wrote
        rw [length_slice]
        exact room.mono most
      by_cases last : size - chunk = 0
      · have rest := step.rest
        rw [last, copyRange_none] at rest
        obtain ⟨-, rfl⟩ := Prod.mk.inj (Option.some.inj rest)
        rw [last, UInt64.toNat_zero, Nat.add_zero] at split
        rwa [split]
      · have roomLeft : Room middle (off + chunk) (size - chunk).toNat := by
          refine first.room ?_ (by rw [length_slice, offNext])
          rwa [length_slice, ← split]
        have second := ih (size - chunk).toNat (by omega) last roomLeft (by omega) step.rest rfl
        rw [split, slice_add]
        refine first.append ?_ ?_
        · rwa [length_slice, ← offNext, ← baseNext]
        · rw [length_slice, length_slice, ← split]
          exact room.fits

/-- Nothing is written yet from `start` to the end of the file at `stop`. -/
structure Clear (s : Sink) (start stop : ℕ) : Prop where
  tracks : Tracks s
  bound : stop < 2 ^ 64
  file : s.seekable = true → s.out.length = stop ∧ BlankOn 0 s.out start stop
  stream : s.seekable = false → s.out.length ≤ start

theorem Clear.room {s : Sink} {start stop len : ℕ} {off : UInt64} (clear : Clear s start stop)
    (after : start ≤ off.toNat) (before : off.toNat + len ≤ stop) : Room s off len := by
  have bound := clear.bound
  refine ⟨clear.tracks, by omega, ?_, ?_⟩
  · cases seek : s.seekable with
    | true =>
        have length := (clear.file seek).1
        rw [Fits, if_pos rfl]
        omega
    | false =>
        have length := clear.stream seek
        rw [Fits, if_neg (by simp)]
        omega
  · intro seek i lower upper
    exact (clear.file seek).2 i (by omega) (by omega)

theorem Clear.next {s after : Sink} {start stop : ℕ} {off : UInt64} {data : List UInt8}
    (clear : Clear s start stop) (behind : start ≤ off.toNat)
    (before : off.toNat + data.length ≤ stop) (placed : Placed s after off.toNat data) :
    Clear after (off.toNat + data.length) stop := by
  have out := placed.out
  cases seek : s.seekable with
  | true =>
      obtain ⟨length, hole⟩ := clear.file seek
      rw [seek, place, if_pos rfl] at out
      refine ⟨placed.tracks, clear.bound, fun _ => ⟨?_, ?_⟩, by simp [placed.seekable, seek]⟩
      · rw [out, length_writeAt (by omega), length]
      · intro i lower upper
        rw [out, getD_writeAt (by omega), if_neg (by omega)]
        exact hole i (by omega) upper
  | false =>
      have length := clear.stream seek
      rw [seek, place, if_neg (by simp)] at out
      refine ⟨placed.tracks, clear.bound, by simp [placed.seekable, seek], fun _ => ?_⟩
      rw [out]
      simp only [appendAt, List.length_append, List.length_replicate]
      omega

def piece (mem : ℕ → UInt8) (load : Range × UInt64) : ℕ × List UInt8 :=
  (load.2.toNat, slice mem load.1.base.toNat load.1.size.toNat)

theorem copyRanges_cons {src : Source} {r : Range} {off : UInt64} {loads : List (Range × UInt64)}
    {s after : Sink} (done : copyRanges src ((r, off) :: loads) s = some (0, after)) :
    ∃ middle, copyRange src r.base r.size off s = some (0, middle) ∧
      copyRanges src loads middle = some (0, after) := by
  simp only [copyRanges] at done
  split at done
  · simp at done
  · rename_i ret middle copied
    split at done
    · rename_i failed
      exact absurd (congrArg Prod.fst (Option.some.inj done)) failed
    · rename_i succeeded
      rw [not_not.mp succeeded] at copied
      exact ⟨middle, copied, done⟩

theorem copyRanges_done {src : Source} {loads : List (Range × UInt64)} {s after : Sink}
    {start stop : ℕ} (clear : Clear s start stop)
    (ordered : InOrder start (loads.map (piece src.mem)) stop)
    (proper : ∀ load ∈ loads, load.1.size ≠ 0 ∧
      load.1.base.toNat + load.1.size.toNat < 2 ^ 64)
    (done : copyRanges src loads s = some (0, after)) :
    after.seekable = s.seekable ∧ Tracks after ∧
      after.out = placeAll 0 s.seekable s.out (loads.map (piece src.mem)) := by
  induction loads generalizing s start with
  | nil =>
      obtain ⟨-, rfl⟩ := Prod.mk.inj (Option.some.inj done)
      exact ⟨rfl, clear.tracks, rfl⟩
  | cons load loads ih =>
      obtain ⟨r, off⟩ := load
      obtain ⟨behind, rest⟩ := ordered
      have before : off.toNat + r.size.toNat ≤ stop := by
        simpa [piece] using rest.le
      obtain ⟨some, noWrap⟩ := proper (r, off) (by simp)
      obtain ⟨middle, copied, done⟩ := copyRanges_cons done
      have placed := copyRange_done some (clear.room behind before) noWrap copied
      have next := clear.next behind (by rwa [length_slice]) placed
      obtain ⟨kind, tracks, out⟩ :=
        ih next rest (fun load member => proper load (by simp [member])) done
      refine ⟨kind.trans placed.seekable, tracks, ?_⟩
      rw [out, placed.seekable, placed.out]
      rfl

theorem copyRanges_within {src : Source} {loads : List (Range × UInt64)} {s after : Sink}
    (proper : ∀ load ∈ loads, load.1.size ≠ 0 ∧
      load.1.base.toNat + load.1.size.toNat < 2 ^ 64)
    (done : copyRanges src loads s = some (0, after)) :
    ∀ load ∈ loads, load.1.base.toNat + load.1.size.toNat ≤ OFFSET_MAX := by
  induction loads generalizing s with
  | nil => simp
  | cons load loads ih =>
      obtain ⟨r, off⟩ := load
      obtain ⟨some, noWrap⟩ := proper (r, off) (by simp)
      obtain ⟨middle, copied, done⟩ := copyRanges_cons done
      intro load member
      rcases List.mem_cons.mp member with rfl | later
      · exact copyRange_within some noWrap copied
      · exact ih (fun load member => proper load (by simp [member])) done load later

end Kmorph
