import Kmorph.Initrd
import Kmorph.InstallCore
import Kmorph.Lifecycle
import Kmorph.Unpacking

/-!
`kmorph init`: files are read whole however the kernel splits them, the image is
installed at once or not at all, and what the successor unpacks is the image and
what `kmorph arm` has put behind it.
-/

namespace Kmorph

namespace Files

section Read

variable {content : List UInt8} {granted : ℕ → Bool} {answers : List ReadAnswer} {b b' : ReadBuffer}

def ReadAnswer.reads : ReadAnswer → Bool
  | .got _ => true
  | .interrupted | .failed _ _ => false

/-- `file_read` asks for blocks of `cap + 1` bytes, for the first one at once. -/
def blockSize (doubled : ℕ) : ℕ := 4096 * 2 ^ doubled + 1

/-- For the others it asks when the file is found to fill the one before. -/
def BlockAsked (content : List UInt8) (doubled : ℕ) : Prop := doubled = 0 ∨ 4096 * 2 ^ (doubled - 1) ≤ content.length

/-- The buffer holds a part of the file from its start, and one byte more than `cap` says. -/
structure Filled (content : List UInt8) (b : ReadBuffer) : Prop where
  front : b.data <+: content
  within : b.data.length ≤ b.cap
  doubled : ∃ doubled, b.cap = 4096 * 2 ^ doubled
  block : b.block = b.cap + 1
  small : b.block < 2 ^ 63
  safe : b.overrun = false

theorem Filled.positive (filled : Filled content b) : 0 < b.cap := by
  obtain ⟨doubled, cap⟩ := filled.doubled
  have := Nat.two_pow_pos doubled
  omega

theorem Filled.asks (filled : Filled content b) (full : b.data.length = b.cap) :
    ∃ doubled, BlockAsked content doubled ∧ (b.cap * 2 + 1) % 2 ^ 64 = blockSize doubled ∧
      b.cap * 2 % 2 ^ 64 = 4096 * 2 ^ doubled := by
  obtain ⟨doubled, cap⟩ := filled.doubled
  have length := filled.front.length_le
  have block := filled.block
  have small := filled.small
  refine ⟨doubled + 1, .inr (by rw [Nat.add_sub_cancel]; omega), ?_, ?_⟩
  · rw [blockSize, Nat.pow_succ]
    omega
  · rw [Nat.pow_succ]
    omega

theorem Filled.grow (limit : ∀ size, granted size = true → size < 2 ^ 63) (filled : Filled content b)
    (grown : b.grow granted = some b') : Filled content b' ∧ b'.data = b.data ∧ b.data.length < b'.cap := by
  have positive := filled.positive
  simp only [ReadBuffer.grow] at grown
  split at grown
  · rename_i full
    obtain ⟨doubled, -, block, cap⟩ := filled.asks full
    rw [block, cap] at grown
    split at grown
    · rename_i given
      cases grown
      have bound := limit _ given
      have above : b.cap < 4096 * 2 ^ doubled := by
        have := filled.small
        have := filled.block
        omega
      have within : b.data.length ≤ 4096 * 2 ^ doubled := by omega
      exact ⟨⟨filled.front, within, ⟨doubled, rfl⟩, rfl, bound, filled.safe⟩, rfl, by simp only; omega⟩
    · cases grown
  · cases grown
    have within := filled.within
    exact ⟨filled, rfl, by omega⟩

theorem chunk_nil (room : b.data.length < b.cap) {n : ℕ} :
    b.chunk content n = [] ↔ content.length ≤ b.data.length := by
  rw [ReadBuffer.chunk, List.take_eq_nil_iff, List.drop_eq_nil_iff]
  omega

theorem Filled.put (filled : Filled content b) (n : ℕ) : Filled content (b.put (b.chunk content n)) := by
  obtain ⟨⟨rest, whole⟩, within, doubled, block, small, safe⟩ := filled
  have chunk : b.chunk content n = rest.take (min (n + 1) (b.cap - b.data.length)) := by
    rw [ReadBuffer.chunk, ← whole, List.drop_left]
  have length : (b.chunk content n).length ≤ b.cap - b.data.length := by
    rw [chunk, List.length_take]
    omega
  refine ⟨?_, ?_, doubled, block, small, ?_⟩
  · rw [ReadBuffer.put, chunk, ← whole]
    exact (List.prefix_append_right_inj _).mpr (List.take_prefix _ _)
  · simp only [ReadBuffer.put, List.length_append]
    omega
  · simp only [ReadBuffer.put, safe, Bool.false_or, decide_eq_false_iff_not]
    omega

/-- What the loop comes to: all of the file in a block that holds it, or why there is none. -/
structure Outcome (content : List UInt8) (granted : ℕ → Bool) (answers : List ReadAnswer) (ret : Int)
    (b : ReadBuffer) : Prop where
  safe : b.overrun = false
  whole : ret = 0 → b.data = content ∧ b.data.length < b.block
  failed : ret ≠ 0 →
    ret = -ENOMEM ∧ (∃ doubled, BlockAsked content doubled ∧ granted (blockSize doubled) = false) ∨
      ∃ errno nonzero, .failed errno nonzero ∈ answers ∧ ret = -errno

theorem Outcome.later {answer : ReadAnswer} {ret : Int} (outcome : Outcome content granted answers ret b) :
    Outcome content granted (answer :: answers) ret b := by
  refine ⟨outcome.safe, outcome.whole, fun failed => ?_⟩
  rcases outcome.failed failed with refused | ⟨errno, nonzero, member, rfl⟩
  · exact .inl refused
  · exact .inr ⟨errno, nonzero, List.mem_cons_of_mem _ member, rfl⟩

theorem Filled.refused (filled : Filled content b) (refused : b.grow granted = none) :
    Outcome content granted answers (-ENOMEM) b := by
  refine ⟨filled.safe, fun zero => absurd zero (by decide), fun _ => .inl ⟨rfl, ?_⟩⟩
  simp only [ReadBuffer.grow] at refused
  split at refused
  · rename_i full
    obtain ⟨doubled, asked, block, -⟩ := filled.asks full
    rw [block] at refused
    split at refused
    · cases refused
    · rename_i none
      exact ⟨doubled, asked, Bool.eq_false_iff.mpr none⟩
  · cases refused

theorem Filled.ended (filled : Filled content b) (short : content.length ≤ b.data.length) : b.data = content :=
  filled.front.eq_of_length_le short

theorem readLoop_outcome (limit : ∀ size, granted size = true → size < 2 ^ 63) (filled : Filled content b)
    {ret : Int} (returned : readLoop content granted answers b = some (ret, b')) :
    Outcome content granted answers ret b' := by
  induction answers generalizing b with
  | nil =>
      rw [readLoop] at returned
      cases grown : b.grow granted with
      | none =>
          rw [grown] at returned
          cases returned
          exact filled.refused grown
      | some larger =>
          rw [grown] at returned
          cases returned
  | cons answer answers ih =>
      rw [readLoop] at returned
      cases grown : b.grow granted with
      | none =>
          rw [grown] at returned
          cases returned
          exact filled.refused grown
      | some larger =>
          rw [grown] at returned
          obtain ⟨filled, same, room⟩ := filled.grow limit grown
          cases answer with
          | failed errno nonzero =>
              cases returned
              exact ⟨filled.safe, fun zero => absurd (neg_eq_zero.mp zero) nonzero,
                fun _ => .inr ⟨errno, nonzero, List.mem_cons_self, rfl⟩⟩
          | interrupted => exact (ih filled returned).later
          | got n =>
              simp only at returned
              split at returned
              · rename_i ended
                cases returned
                rw [← same] at room
                refine ⟨?_, fun _ => ⟨filled.ended ((chunk_nil room).mp ended), ?_⟩, fun nonzero => absurd rfl nonzero⟩
                · simp only [ReadBuffer.terminate, filled.safe, filled.block, Bool.false_or, decide_eq_false_iff_not]
                  omega
                · simp only [ReadBuffer.terminate, filled.block]
                  omega
              · exact (ih (filled.put n) returned).later

/-- A file is read to its end if there is memory, no read fails, and one reads for each byte and then
for the end. -/
theorem readLoop_returns (limit : ∀ size, granted size = true → size < 2 ^ 63) (filled : Filled content b)
    (memory : ∀ doubled, BlockAsked content doubled → granted (blockSize doubled) = true)
    (works : ∀ errno nonzero, .failed errno nonzero ∉ answers)
    (enough : content.length < b.data.length + answers.countP ReadAnswer.reads) :
    ∃ b', readLoop content granted answers b = some (0, b') := by
  induction answers generalizing b with
  | nil =>
      have := filled.front.length_le
      simp at enough
      omega
  | cons answer answers ih =>
      have later : ∀ errno nonzero, .failed errno nonzero ∉ answers :=
        fun errno nonzero member => works errno nonzero (List.mem_cons_of_mem _ member)
      have grows : ∃ b', b.grow granted = some b' := by
        simp only [ReadBuffer.grow]
        split
        · rename_i full
          obtain ⟨doubled, asked, block, -⟩ := filled.asks full
          rw [block, if_pos (memory doubled asked)]
          exact ⟨_, rfl⟩
        · exact ⟨b, rfl⟩
      obtain ⟨b', grown⟩ := grows
      obtain ⟨filled, same, room⟩ := filled.grow limit grown
      rw [readLoop, grown]
      cases answer with
      | failed errno nonzero => exact absurd List.mem_cons_self (works errno nonzero)
      | interrupted =>
          refine ih filled later ?_
          rw [same]
          simpa [ReadAnswer.reads] using enough
      | got n =>
          rw [← same] at room
          simp only
          split
          · exact ⟨_, rfl⟩
          · rename_i more
            refine ih (filled.put n) later ?_
            have taken : 0 < (b'.chunk content n).length := List.length_pos_iff.mpr more
            rw [← same] at enough
            simp only [List.countP_cons, ReadAnswer.reads, if_true, ReadBuffer.put, List.length_append] at enough ⊢
            omega

end Read

/-- `file_read` returns the file whole in whatever pieces it comes and however often the reads are
interrupted, writes no byte behind its block whatever it returns, and fails only where a call does: of the
blocks only one that the file so far needs can be refused. -/
theorem fileRead_whole (content : List UInt8) (granted : ℕ → Bool)
    (limit : ∀ size, granted size = true → size < 2 ^ 63) (opened : Int) (answers : List ReadAnswer) :
    (∀ ret b, fileRead opened granted answers content = some (ret, b) →
      b.overrun = false ∧ (ret = 0 → b.data = content ∧ b.data.length < b.block) ∧
      (ret ≠ 0 → ret = opened ∨
        ret = -ENOMEM ∧ (∃ doubled, BlockAsked content doubled ∧ granted (blockSize doubled) = false) ∨
        ∃ errno nonzero, .failed errno nonzero ∈ answers ∧ ret = -errno)) ∧
    (opened = 0 → (∀ doubled, BlockAsked content doubled → granted (blockSize doubled) = true) →
      (∀ errno nonzero, .failed errno nonzero ∉ answers) → content.length < answers.countP ReadAnswer.reads →
      ∃ b, fileRead opened granted answers content = some (0, b)) := by
  have start : Filled content ⟨[], 4096, 4097, false⟩ := ⟨List.nil_prefix, by simp, ⟨0, rfl⟩, rfl, by decide, rfl⟩
  constructor
  · intro ret b returned
    simp only [fileRead] at returned
    split_ifs at returned with failed given
    · cases returned
      exact ⟨rfl, fun zero => absurd zero failed, fun _ => .inl rfl⟩
    · have outcome := readLoop_outcome limit start returned
      exact ⟨outcome.safe, outcome.whole, fun nonzero => .inr (outcome.failed nonzero)⟩
    · cases returned
      exact ⟨rfl, fun zero => absurd zero (by decide),
        fun _ => .inr (.inl ⟨rfl, 0, .inl rfl, Bool.eq_false_iff.mpr given⟩)⟩
  · intro isOpen memory works enough
    rw [fileRead, if_neg (not_not.mpr isOpen), if_pos (show granted 4097 = true from memory 0 (.inl rfl))]
    exact readLoop_returns limit start memory works (by simpa using enough)

theorem fileRead_whole_pieces :
    ∃ b, fileRead 0 (fun size => decide (size < 2 ^ 63))
        ([.got 1, .interrupted, .got 0] ++ List.replicate 4 (.got 7)) [1, 2, 3, 4, 5] = some (0, b) ∧
      b.data = [1, 2, 3, 4, 5] ∧ b.overrun = false := by
  obtain ⟨whole, returns⟩ := fileRead_whole [1, 2, 3, 4, 5] (fun size => decide (size < 2 ^ 63))
    (fun size grant => of_decide_eq_true grant) 0 ([.got 1, .interrupted, .got 0] ++ List.replicate 4 (.got 7))
  have memory : ∀ doubled, BlockAsked [1, 2, 3, 4, 5] doubled → decide (blockSize doubled < 2 ^ 63) = true := by
    rintro doubled (rfl | more)
    · decide
    · have := Nat.two_pow_pos (doubled - 1)
      simp only [List.length_cons, List.length_nil] at more
      omega
  obtain ⟨b, returned⟩ := returns rfl memory (by simp) (by decide)
  obtain ⟨safe, all, -⟩ := whole 0 b returned
  exact ⟨b, returned, (all rfl).1, safe⟩

end Files

/-! The disk while an image is installed. -/

section Disk

variable {start d : Disk} {r r' : DiskRun} {names : List FilePath} {path other : FilePath}

@[simp] theorem Disk.set_files (d : Disk) (path other : FilePath) (content : Option (List UInt8)) :
    (d.set path content).files other = if other = path then content else d.files other := rfl

@[simp] theorem DiskRun.step_now (r : DiskRun) (d : Disk) : (r.step d).now = d := rfl

@[simp] theorem DiskRun.step_moments (r : DiskRun) (d : Disk) : (r.step d).moments = d :: r.moments := rfl

/-- At no moment so far did any other file differ. -/
def DiskRun.Kept (start : Disk) (names : List FilePath) (r : DiskRun) : Prop :=
  ∀ d ∈ r.moments, ∀ other ∉ names, d.files other = start.files other

theorem DiskRun.Kept.now (kept : r.Kept start names) (different : other ∉ names) :
    r.now.files other = start.files other :=
  kept r.now List.mem_cons_self other different

theorem DiskRun.Kept.step (kept : r.Kept start names) (same : ∀ other ∉ names, d.files other = r.now.files other) :
    (r.step d).Kept start names := by
  intro moment member other different
  rcases List.mem_cons.mp member with rfl | earlier
  · exact (same other different).trans (kept.now different)
  · exact kept moment earlier other different

theorem DiskRun.Kept.mono (kept : r.Kept start names) {more : List FilePath} (fewer : names ⊆ more) :
    r.Kept start more :=
  fun d member other different => kept d member other fun inside => different (fewer inside)

theorem DiskRun.Kept.set (kept : r.Kept start [path]) (content : Option (List UInt8)) :
    (r.step (r.now.set path content)).Kept start [path] := by
  refine kept.step fun other different => ?_
  rw [Disk.set_files, if_neg (by simpa using different)]

theorem writeLoop_written {answers : List WriteAnswer} {buf old : List UInt8} {ret : Int}
    (kept : r.Kept start [path]) (holds : r.now.files path = some old)
    (returned : Files.writeLoop path answers r buf = some (ret, r')) :
    r'.Kept start [path] ∧ r'.now.directories = r.now.directories ∧
      (ret = 0 → r'.now.files path = some (old ++ buf)) := by
  induction answers generalizing r old buf with
  | nil =>
      cases buf with
      | nil =>
          rw [Files.writeLoop] at returned
          cases returned
          exact ⟨kept, rfl, fun _ => by rw [holds, List.append_nil]⟩
      | cons b buf => cases returned
  | cons answer answers ih =>
      cases buf with
      | nil =>
          rw [Files.writeLoop] at returned
          cases returned
          exact ⟨kept, rfl, fun _ => by rw [holds, List.append_nil]⟩
      | cons b buf =>
          cases answer with
          | wrote n =>
              rw [Files.writeLoop, holds, Option.getD_some] at returned
              have written := @ih _ _ (old ++ (b :: buf).take n) (kept.set _) (by simp) returned
              rwa [List.append_assoc, List.take_append_drop] at written
          | interrupted => exact ih kept holds returned
          | failed errno nonzero =>
              rw [Files.writeLoop] at returned
              cases returned
              exact ⟨kept, rfl, fun zero => absurd zero (by omega)⟩

theorem fileWrite_written {env : InstallEnv} {buf : List UInt8} {ret : Int} (kept : r.Kept start [path])
    (returned : Files.fileWrite env path buf r = some (ret, r')) :
    r'.Kept start [path] ∧ r'.now.directories = r.now.directories ∧ (ret = 0 → r'.now.files path = some buf) := by
  rw [Files.fileWrite] at returned
  split at returned
  · rename_i refused
    cases returned
    exact ⟨kept, rfl, fun zero => absurd zero refused⟩
  · have holds : (r.step (r.now.set path (some []))).now.files path = some [] := by simp
    exact writeLoop_written (kept.set (some [])) holds returned

theorem mkdirEach_kept {env : InstallEnv} {passed : FilePath} (kept : r.Kept start []) :
    (mkdirEach env passed path r).2.Kept start [] := by
  induction path generalizing passed r with
  | nil => exact kept
  | cons c rest ih =>
      rw [mkdirEach]
      split
      · simp only
        split
        · exact kept
        · split
          · exact ih (kept.step fun _ _ => rfl)
          · exact ih kept
      · exact ih kept

theorem mkdirParents_kept (env : InstallEnv) (path : FilePath) (kept : r.Kept start []) :
    (mkdirParents env path r).2.Kept start [] := by
  rw [mkdirParents]
  split
  · exact kept
  · exact mkdirEach_kept kept

theorem mkdirEach_directories {env : InstallEnv} {passed : FilePath} :
    r.now.directories ⊆ (mkdirEach env passed path r).2.now.directories := by
  induction path generalizing passed r with
  | nil => exact List.Subset.refl _
  | cons c rest ih =>
      rw [mkdirEach]
      split
      · simp only
        split
        · exact List.Subset.refl _
        · split
          · exact fun dir member => ih (List.mem_cons_of_mem _ member)
          · exact ih
      · exact ih

theorem mkdirEach_made {env : InstallEnv} {passed : FilePath} (made : (mkdirEach env passed path r).1 = 0)
    {front rest : FilePath} (above : path = front ++ '/' :: rest) (named : passed ++ front ≠ []) :
    (env.mkdir (passed ++ front)).ret = -EEXIST ∨
      passed ++ front ∈ (mkdirEach env passed path r).2.now.directories := by
  induction front generalizing passed path r with
  | nil =>
      subst above
      rw [List.append_nil] at named ⊢
      rw [List.nil_append, mkdirEach, if_pos ⟨rfl, named⟩] at made ⊢
      simp only at made ⊢
      split at made
      · rename_i failed
        exact absurd made failed.1
      · rename_i passes
        rw [if_neg passes]
        by_cases fresh : (env.mkdir passed).ret = 0
        · right
          rw [if_pos fresh]
          exact mkdirEach_directories List.mem_cons_self
        · exact .inl (not_not.mp fun other => passes ⟨fresh, other⟩)
  | cons c front ih =>
      have further : passed ++ c :: front = (passed ++ [c]) ++ front := by simp
      subst above
      rw [further] at named ⊢
      rw [List.cons_append, mkdirEach] at made ⊢
      split at made
      · rename_i directory
        rw [if_pos directory]
        simp only at made ⊢
        split at made
        · rename_i failed
          exact absurd made failed.1
        · rename_i passes
          rw [if_neg passes]
          exact ih made rfl named
      · rename_i directory
        rw [if_neg directory]
        exact ih made rfl named

theorem path_ne_tmp (path : FilePath) : path ≠ tmpPath path := by
  intro same
  have := congrArg List.length same
  simp [tmpPath] at this

def Reached (env : InstallEnv) (path : FilePath) (d : Disk) : Prop :=
  ∀ front rest, path = front ++ '/' :: rest → front ≠ [] →
    (env.mkdir front).ret = -EEXIST ∨ front ∈ d.directories

theorem mkdirParents_reached {env : InstallEnv} (made : (mkdirParents env path r).1 = 0) :
    Reached env path (mkdirParents env path r).2.now := by
  intro front rest above named
  rw [mkdirParents] at made ⊢
  split at made
  · cases made
  · rename_i short
    rw [if_neg short]
    exact mkdirEach_made made above named

/-- All that `image_write` can do: fail and leave the image as it was, or replace it at once. -/
inductive Install (env : InstallEnv) (image : List UInt8) (path : FilePath) (start : Disk) : Int → DiskRun → Prop
  | kept {ret : Int} {r : DiskRun} (failed : ret ≠ 0) (kept : r.Kept start [tmpPath path])
      (clean : env.unlinked.ret = 0 →
        r.now.files (tmpPath path) = none ∨ r.now.files (tmpPath path) = start.files (tmpPath path)) :
      Install env image path start ret r
  | replaced {r : DiskRun} (kept : r.Kept start [tmpPath path]) (reached : Reached env path r.now)
      (written : r.now.files (tmpPath path) = some image) :
      Install env image path start 0 (r.step ((r.now.set path (some image)).set (tmpPath path) none))

theorem unlinked_kept {env : InstallEnv} {image : List UInt8} {ret : Int} (failed : ret ≠ 0)
    (kept : r.Kept start [tmpPath path]) :
    Install env image path start ret (unlinkFile env.unlinked (tmpPath path) r) := by
  rw [unlinkFile]
  split
  · rename_i refused
    exact .kept failed kept fun unlinked => absurd unlinked refused
  · refine .kept failed (kept.set none) fun _ => .inl ?_
    simp

theorem imageWrite_install {env : InstallEnv} {image : List UInt8} {ret : Int}
    (returned : imageWrite env image path ⟨start, []⟩ = some (ret, r)) : Install env image path start ret r := by
  have begun : DiskRun.Kept start [] ⟨start, []⟩ := by
    intro d member other _
    rw [List.mem_singleton.mp member]
  have made := mkdirParents_kept env path begun
  have reached := @mkdirParents_reached ⟨start, []⟩ path env
  rw [imageWrite] at returned
  simp only at returned
  generalize mkdirParents env path ⟨start, []⟩ = parents at made reached returned
  obtain ⟨ret₀, r₀⟩ := parents
  have same := made.now (List.not_mem_nil : tmpPath path ∉ [])
  have kept := made.mono (List.nil_subset [tmpPath path])
  split at returned
  · rename_i failed
    cases returned
    exact .kept failed kept fun _ => .inr same
  · rename_i passed
    split at returned
    · cases returned
      exact .kept (by decide) kept fun _ => .inr same
    · obtain ⟨⟨ret₁, r₁⟩, wrote, returned⟩ := Option.bind_eq_some_iff.mp returned
      obtain ⟨kept, directories, written⟩ := fileWrite_written kept wrote
      by_cases done : ret₁ = 0
      · simp only [done, if_true, renameFile, written done] at returned
        split at returned
        · rename_i refused
          cases returned
          exact unlinked_kept refused kept
        · cases returned
          refine .replaced kept ?_ (written done)
          rw [Reached, directories]
          exact reached (not_not.mp passed)
      · simp only [if_neg done, if_pos done] at returned
        cases returned
        exact unlinked_kept done kept

theorem Install.atomic {env : InstallEnv} {image : List UInt8} {ret : Int}
    (installed : Install env image path start ret r) :
    (∀ d ∈ r.moments, d.files path = start.files path ∨ d.files path = some image) ∧
      (∀ d ∈ r.moments, ∀ other, other ≠ path → other ≠ tmpPath path → d.files other = start.files other) ∧
      (ret = 0 → r.now.files path = some image ∧ r.now.files (tmpPath path) = none ∧ Reached env path r.now) ∧
      (ret ≠ 0 → (∀ d ∈ r.moments, d.files path = start.files path) ∧ (env.unlinked.ret = 0 →
        r.now.files (tmpPath path) = none ∨ r.now.files (tmpPath path) = start.files (tmpPath path))) := by
  have apart : path ∉ [tmpPath path] := by simpa using path_ne_tmp path
  cases installed with
  | kept failed kept clean =>
      have same (d : Disk) (member : d ∈ r.moments) := kept d member path apart
      refine ⟨fun d member => .inl (same d member), ?_, fun done => absurd done failed, fun _ => ⟨same, clean⟩⟩
      intro d member other _ different
      exact kept d member other (by simpa using different)
  | @replaced r kept reached written =>
      refine ⟨?_, ?_, fun _ => ?_, fun failed => absurd rfl failed⟩
      · intro d member
        rw [DiskRun.step_moments] at member
        rcases List.mem_cons.mp member with rfl | earlier
        · right
          simp [path_ne_tmp path]
        · exact .inl (kept d earlier path apart)
      · intro d member other ne different
        rw [DiskRun.step_moments] at member
        rcases List.mem_cons.mp member with rfl | earlier
        · rw [Disk.set_files, if_neg different, Disk.set_files, if_neg ne]
          exact kept.now (by simpa using different)
        · exact kept d earlier other (by simpa using different)
      · exact ⟨by simp [path_ne_tmp path], by simp, reached⟩

structure InstallEnv.Granted (env : InstallEnv) (image : List UInt8) : Prop where
  mkdir : ∀ path, (env.mkdir path).ret = 0 ∨ (env.mkdir path).ret = -EEXIST
  opened : env.opened.ret = 0
  writes : ∀ answer ∈ env.writes, ∃ n, answer = .wrote (n + 1)
  enough : image.length ≤ env.writes.length
  renamed : env.renamed.ret = 0

theorem writeLoop_returns {answers : List WriteAnswer} {buf : List UInt8}
    (progress : ∀ answer ∈ answers, ∃ n, answer = .wrote (n + 1)) (enough : buf.length ≤ answers.length) :
    ∃ r', Files.writeLoop path answers r buf = some (0, r') := by
  induction answers generalizing r buf with
  | nil =>
      obtain rfl := List.length_eq_zero_iff.mp (Nat.le_zero.mp enough)
      exact ⟨r, rfl⟩
  | cons answer answers ih =>
      obtain ⟨⟨n, rfl⟩, later⟩ := List.forall_mem_cons.mp progress
      cases buf with
      | nil => exact ⟨r, rfl⟩
      | cons b buf =>
          refine ih later ?_
          simp only [List.length_drop, List.length_cons] at enough ⊢
          omega

theorem mkdirEach_granted {env : InstallEnv} {passed : FilePath}
    (mkdir : ∀ path, (env.mkdir path).ret = 0 ∨ (env.mkdir path).ret = -EEXIST) :
    (mkdirEach env passed path r).1 = 0 := by
  induction path generalizing passed r with
  | nil => rfl
  | cons c rest ih =>
      rw [mkdirEach]
      split
      · simp only
        rw [if_neg (by rcases mkdir passed with made | there <;> simp [*])]
        exact ih
      · exact ih

theorem imageWrite_granted {env : InstallEnv} {image : List UInt8} (granted : env.Granted image)
    (short : (tmpPath path).length < PATH_MAX) : ∃ r', imageWrite env image path r = some (0, r') := by
  have made : (mkdirParents env path r).1 = 0 := by
    have : path.length ≤ (tmpPath path).length := by simp [tmpPath]
    rw [mkdirParents, if_neg (by omega)]
    exact mkdirEach_granted granted.mkdir
  obtain ⟨r₁, written⟩ := @writeLoop_returns
    ((mkdirParents env path r).2.step ((mkdirParents env path r).2.now.set (tmpPath path) (some []))) (tmpPath path)
    env.writes image granted.writes granted.enough
  have wrote : Files.fileWrite env (tmpPath path) image (mkdirParents env path r).2 = some (0, r₁) := by
    rw [Files.fileWrite, if_neg (not_not.mpr granted.opened), written]
  refine ⟨r₁.step ((r₁.now.set path (r₁.now.files (tmpPath path))).set (tmpPath path) none), ?_⟩
  simp only [imageWrite, made, wrote, renameFile, granted.renamed, Option.bind_eq_bind, Option.bind_some]
  rw [if_neg (by simp), if_neg (by omega)]
  simp

end Disk

/-- Whichever call fails, and at whatever moment one looks, the image is the one that was there or the
new one whole. An installation that fails changes no file, and leaves none behind that it can unlink;
one whose calls go through succeeds. -/
theorem imageWrite_atomic (env : InstallEnv) (image : List UInt8) (path : FilePath) (start : Disk) :
    (∀ ret r, imageWrite env image path ⟨start, []⟩ = some (ret, r) →
      (∀ d ∈ r.moments, d.files path = start.files path ∨ d.files path = some image) ∧
      (∀ d ∈ r.moments, ∀ other, other ≠ path → other ≠ tmpPath path → d.files other = start.files other) ∧
      (ret = 0 → r.now.files path = some image ∧ r.now.files (tmpPath path) = none ∧ Reached env path r.now) ∧
      (ret ≠ 0 → (∀ d ∈ r.moments, d.files path = start.files path) ∧ (env.unlinked.ret = 0 →
        r.now.files (tmpPath path) = none ∨ r.now.files (tmpPath path) = start.files (tmpPath path)))) ∧
    (env.Granted image → (tmpPath path).length < PATH_MAX →
      ∃ r, imageWrite env image path ⟨start, []⟩ = some (0, r)) :=
  ⟨fun _ _ returned => (imageWrite_install returned).atomic, imageWrite_granted⟩

def sampleInstall : InstallEnv where
  mkdir := fun path => if path = "/var".toList then ⟨-EEXIST, by decide⟩ else .granted
  opened := .granted
  writes := [.wrote 2, .wrote 1, .failed 28 (by decide)]
  renamed := .granted
  unlinked := .granted

theorem imageWrite_atomic_full :
    ∃ ret r, imageWrite sampleInstall [1, 2, 3, 4] "/var/lib/image".toList ⟨⟨fun _ => some [9], []⟩, []⟩ = some (ret, r) ∧
      ret ≠ 0 ∧ r.moments.length = 6 ∧ ∀ d ∈ r.moments, d.files "/var/lib/image".toList = some [9] := by
  have runs : ((imageWrite sampleInstall [1, 2, 3, 4] "/var/lib/image".toList ⟨⟨fun _ => some [9], []⟩, []⟩).map fun out =>
      (out.1, out.2.moments.length)) = some (-28, 6) := by decide +kernel
  obtain ⟨⟨ret, r⟩, returned, same⟩ := Option.map_eq_some_iff.mp runs
  obtain ⟨negative, six⟩ := Prod.mk.inj same
  have failed : ret ≠ 0 := by
    rw [show ret = -28 from negative]
    decide
  obtain ⟨whole, -⟩ := imageWrite_atomic sampleInstall [1, 2, 3, 4] "/var/lib/image".toList ⟨fun _ => some [9], []⟩
  obtain ⟨-, -, -, keeps⟩ := whole ret r returned
  exact ⟨ret, r, returned, failed, six, (keeps failed).1⟩

/-! What the successor unpacks. -/

section Unpacked

open Cpio

variable {granted : ℕ → Bool} {files : SourceFiles} {cfg : KmorphConfig} {c c' : Cpio}

theorem andThen_inv {result : Option (Int × Cpio)} {rest : Cpio → Option (Int × Cpio)}
    (done : andThen result rest = some (0, c')) : ∃ c, result = some (0, c) ∧ rest c = some (0, c') := by
  match result with
  | none => cases done
  | some (ret, c) =>
      rw [andThen] at done
      split at done
      · rename_i failed
        cases done
        exact absurd rfl failed
      · rename_i zero
        exact ⟨c, by rw [not_not.mp zero], done⟩

theorem addFile_accepted {f : File} (added : addFile granted c f.path f.data f.mode = some (0, c')) :
    f.name ≠ [] ∧ f.name.length < 256 := by
  change (if f.name = [] ∨ f.name.length ≥ 256 then _ else _) = _ at added
  split at added
  · cases added
  · rename_i accepted
    obtain ⟨named, short⟩ := not_or.mp accepted
    exact ⟨named, Nat.not_le.mp short⟩

theorem addStatic_inv {source dest : FilePath} (added : addStatic granted files source dest c = some (0, c')) :
    ∃ elf, files.read source = .ok elf ∧ elfNeedsInterp elf = some 0 ∧
      addFile granted c (textBytes dest) elf 0o755 = some (0, c') := by
  rw [addStatic] at added
  cases read : files.read source with
  | error ret =>
      have negative := files.errno read
      rw [read] at added
      cases added
      exact absurd negative (by decide)
  | ok elf =>
      rw [read] at added
      obtain ⟨needs, judged, added⟩ := Option.bind_eq_some_iff.mp added
      split at added
      · cases added
      · rename_i static
        exact ⟨elf, rfl, by rw [judged, not_not.mp static], added⟩

def imageFiles (cfg : KmorphConfig) (kmorphd login : List UInt8) : List File :=
  ⟨textBytes "init".toList, kmorphd, 0o755⟩ ::
    if cfg.console.isSome then [⟨textBytes (cfg.consoleLogin.getD []), login, 0o755⟩] else []

/-- The image was built of programs that need no interpreter. -/
structure Static (files : SourceFiles) (cfg : KmorphConfig) (path : FilePath) (kmorphd login : List UInt8) : Prop where
  init : files.read path = .ok kmorphd ∧ elfNeedsInterp kmorphd = some 0
  console : cfg.console.isSome = true →
    files.read (cfg.consoleLogin.getD []) = .ok login ∧ elfNeedsInterp login = some 0

theorem imageBuild_files {path : FilePath} (built : imageBuild granted files cfg path CPIO_INIT = some (0, c)) :
    ∃ kmorphd login, Static files cfg path kmorphd login ∧
      archive granted (imageFiles cfg kmorphd login) = some (0, c) ∧
      ∀ f ∈ imageFiles cfg kmorphd login, f.name ≠ [] ∧ f.name.length < 256 := by
  obtain ⟨c₂, built, finished⟩ := andThen_inv built
  obtain ⟨c₁, added, built⟩ := andThen_inv built
  obtain ⟨kmorphd, read, static, added⟩ := addStatic_inv added
  have accepted := @addFile_accepted granted _ _ ⟨textBytes "init".toList, kmorphd, 0o755⟩ added
  by_cases console : cfg.console.isSome = true
  · rw [if_pos console] at built
    obtain ⟨login, loginRead, loginStatic, loginAdded⟩ := addStatic_inv built
    have loginAccepted :=
      @addFile_accepted granted _ _ ⟨textBytes (cfg.consoleLogin.getD []), login, 0o755⟩ loginAdded
    refine ⟨kmorphd, login, ⟨⟨read, static⟩, fun _ => ⟨loginRead, loginStatic⟩⟩, ?_, ?_⟩
    · simp only [imageFiles, if_pos console, archive, addFiles, andThen, added, loginAdded, finished, ne_eq,
        not_true_eq_false, if_false]
    · rw [imageFiles, if_pos console, List.forall_mem_cons, List.forall_mem_singleton]
      exact ⟨accepted, loginAccepted⟩
  · rw [if_neg console] at built
    cases built
    refine ⟨kmorphd, [], ⟨⟨read, static⟩, fun given => absurd given console⟩, ?_, ?_⟩
    · simp only [imageFiles, if_neg console, archive, addFiles, andThen, added, finished, ne_eq, not_true_eq_false,
        if_false]
    · rw [imageFiles, if_neg console, List.forall_mem_singleton]
      exact accepted

/-- An archive that was finished, behind whatever ends at a multiple of four and before more of them. -/
theorem archive_unpacks (limit : ∀ size, granted size = true → size < 2 ^ 63) {listed : List File}
    (accepted : ∀ f ∈ listed, f.name ≠ [] ∧ f.name.length < 256)
    (ended : ∀ e ∈ listed.flatMap File.contents, e.name ≠ Newc.TRAILER)
    (finished : archive granted listed = some (0, c)) {buf front rest : List UInt8} {more : List Newc.Entry}
    (split : buf = front ++ (c.data ++ rest)) (aligned : 4 ∣ front.length)
    (later : Newc.Unpacks buf (front.length + c.data.length) more) :
    4 ∣ c.data.length ∧ ∃ entries, Newc.Unpacks buf front.length (entries ++ more) ∧
      entries.map (fun e => (e.name, e.mode, e.data)) =
        (listed.flatMap File.contents).map fun e => (e.name, e.mode.toNat, e.data) := by
  have short (f : File) (member : f ∈ listed) := (accepted f member).2
  obtain ⟨ret, c', returned, -, -, ok, -⟩ := archive_appends limit (fun f member => (accepted f member).1) short
  rw [finished] at returned
  obtain ⟨rfl, rfl⟩ := Prod.mk.inj (Option.some.inj returned)
  obtain ⟨sound, data, -, fits⟩ := ok rfl
  have contentsShort := contents_short short
  generalize listed.flatMap File.contents = es at *
  have written := numbered_append 1 es [trailer]
  generalize 1 + UInt32.ofNat es.length = ino at written
  have last : numbered ino [trailer] = [⟨ino.toNat, 0, Newc.TRAILER, []⟩] := rfl
  have lastFits := @numbered_fits ino [trailer] (by decide) (by decide)
  rw [last, List.forall_mem_singleton] at lastFits
  have bytes : c.data =
      (numbered 1 es).flatMap Newc.encode ++ Newc.encode ⟨ino.toNat, 0, Newc.TRAILER, []⟩ := by
    rw [data]
    change [] ++ (numbered 1 (es ++ [trailer])).flatMap Newc.encode = _
    rw [written, last, List.flatMap_append, List.flatMap_cons, List.flatMap_nil, List.append_nil, List.nil_append]
  refine ⟨sound.aligned, numbered 1 es, ?_, numbered_contents 1 es⟩
  refine @Newc.Unpacks.archive _ _ rest _ _ ⟨ino.toNat, 0, Newc.TRAILER, []⟩ ?_ aligned
    (numbered_fits contentsShort fun e member => fits e (List.mem_append_left _ member)) (numbered_named ended) lastFits
    rfl ?_
  · rw [split, bytes, List.append_assoc]
  · rw [bytes, List.length_append, ← Nat.add_assoc] at later
    exact later

theorem init_contents (kmorphd : List UInt8) :
    File.contents ⟨textBytes "init".toList, kmorphd, 0o755⟩ = [⟨textBytes "init".toList, 0o100755, kmorphd⟩] := by
  have name : File.name ⟨textBytes "init".toList, kmorphd, 0o755⟩ = textBytes "init".toList := by
    show (textBytes "init".toList).dropWhile (· = SLASH) = _
    decide +kernel
  have directories : ancestors (textBytes "init".toList) = [] := by decide +kernel
  have mode : S_IFREG ||| (0o755 &&& 0o7777) = 0o100755 := by decide
  rw [File.contents, name, directories, mode]
  rfl

def loginNames (cfg : KmorphConfig) : List (List UInt8) :=
  let name := (textBytes (cfg.consoleLogin.getD [])).dropWhile (· = SLASH)
  ancestors name ++ [name]

theorem imageFiles_ended {kmorphd login : List UInt8}
    (names : cfg.console.isSome = true → ∀ name ∈ loginNames cfg, name ≠ Newc.TRAILER) :
    ∀ e ∈ (imageFiles cfg kmorphd login).flatMap File.contents, e.name ≠ Newc.TRAILER := by
  have first : ∀ e ∈ File.contents ⟨textBytes "init".toList, kmorphd, 0o755⟩, e.name ≠ Newc.TRAILER := by
    rw [init_contents, List.forall_mem_singleton]
    show textBytes "init".toList ≠ Newc.TRAILER
    decide +kernel
  rw [imageFiles, List.flatMap_cons, List.forall_mem_append]
  refine ⟨first, ?_⟩
  by_cases console : cfg.console.isSome = true
  · intro e member
    rw [if_pos console, List.flatMap_singleton, File.contents] at member
    apply names console
    rcases List.mem_append.mp member with directory | file
    · obtain ⟨name, inside, rfl⟩ := List.mem_map.mp directory
      exact List.mem_append_left _ inside
    · rw [List.mem_singleton.mp file]
      exact List.mem_append_right _ List.mem_cons_self
  · rw [if_neg console]
    exact fun e member => absurd member List.not_mem_nil

end Unpacked

/-- What the kernel unpacks of the initrd that `kmorph arm` makes of an image that `kmorph init` built:
kmorphd as `/init`, the login program if there is a console, then the config and the network identity,
each as it was given; and none of the programs needs an interpreter. -/
theorem initRun_unpacked (granted : ℕ → Bool) (limit : ∀ size, granted size = true → size < 2 ^ 63)
    (files : SourceFiles) (env : InstallEnv) (exe : Option FilePath) (cfg : KmorphConfig)
    (names : cfg.console.isSome = true → ∀ name ∈ loginNames cfg, name ≠ Newc.TRAILER) (start : Disk) (r : DiskRun)
    (built : initRun granted files env exe cfg ⟨start, []⟩ = some (0, r)) (arm : ArmEnv)
    (armLimit : ∀ size, arm.archiveGranted size = true → size < 2 ^ 63)
    (errnos : ∀ errno nonzero, .failed errno nonzero ∈ arm.writes → 0 < errno) (default : cfg.initrd = none)
    (image : List UInt8) (onDisk : r.now.files KMORPH_INITRD_PATH = some image)
    (read : arm.file KMORPH_INITRD_PATH = .ok image) (devices : List DeviceId) (fd : Int) (initrd : List UInt8)
    (packed : arm.initrd cfg devices = some (fd, initrd)) (opened : 0 ≤ fd) :
    ∃ kmorphd login entries, Static files cfg (kmorphdPath exe PATH_MAX) kmorphd login ∧
      Newc.unpack initrd = some entries ∧
      entries.map (fun e => (e.name, e.mode, e.data)) =
        ((imageFiles cfg kmorphd login ++ initrdFiles (textBytes cfg.text) (arm.snapshot devices)).flatMap
          Cpio.File.contents).map fun e => (e.name, e.mode.toNat, e.data) := by
  obtain ⟨⟨ret, c⟩, built, written⟩ := Option.bind_eq_some_iff.mp built
  simp only at written
  split at written
  · rename_i failed
    cases written
    exact absurd rfl failed
  · rename_i done
    obtain rfl : ret = 0 := not_not.mp done
    obtain ⟨kmorphd, login, static, archived, accepted⟩ := imageBuild_files built
    obtain ⟨-, -, installed, -⟩ := (imageWrite_install written).atomic
    obtain rfl : c.data = image := Option.some.inj ((installed rfl).1.symm.trans onDisk)
    rw [ArmEnv.initrd, default, Option.getD_none, read] at packed
    obtain ⟨zeros, extra, finished, whole, -, zero, aligned, -⟩ :=
      successorInitrd_assembled armLimit errnos packed opened
    obtain ⟨extraAccepted, extraEnded, -, -⟩ := initrdFiles_spec (textBytes cfg.text) (arm.snapshot devices)
    obtain ⟨-, more, unpacks, extraContents⟩ := archive_unpacks armLimit extraAccepted extraEnded finished
      (show initrd = (c.data ++ zeros) ++ (extra.data ++ []) by rw [whole, List.append_nil]) aligned
      (.stop (by rw [whole, List.length_append]))
    rw [List.append_nil, List.length_append] at unpacks
    have padding : zeros = List.replicate zeros.length 0 := List.eq_replicate_of_mem zero
    have skipped : Newc.Unpacks initrd c.data.length more := by
      refine @Newc.Unpacks.zeros _ _ extra.data _ zeros.length ?_ unpacks
      rw [whole, ← padding, List.append_assoc]
    obtain ⟨-, entries, unpacks, contents⟩ := archive_unpacks limit accepted (imageFiles_ended names) archived
      (show initrd = [] ++ (c.data ++ (zeros ++ extra.data)) by rw [whole, List.nil_append, List.append_assoc])
      (Nat.dvd_zero 4) (by rwa [List.length_nil, Nat.zero_add])
    refine ⟨kmorphd, login, entries ++ more, static, unpacks.unpack, ?_⟩
    rw [List.map_append, contents, extraContents, List.flatMap_append, List.map_append]

def staticElf : List UInt8 := ELF64_IDENT ++ List.replicate 49 0 ++ [56] ++ List.replicate 9 0

def sampleSources : SourceFiles where
  read := fun _ => .ok staticElf
  errno := by
    intro path ret failed
    cases failed

def belowLimit (size : ℕ) : Bool := size < 2 ^ 63

def consoleConfig : KmorphConfig :=
  { sampleConfig with console := some "ttyS0".toList, consoleLogin := some "/bin/login".toList }

def sampleInit : Option (Int × DiskRun) :=
  initRun belowLimit sampleSources { sampleInstall with writes := [.wrote 4096] } none consoleConfig
    ⟨⟨fun _ => none, []⟩, []⟩

/-- An arm that reads the image from the disk as `kmorph init` left it, and hands on the identity of an
interface. -/
def sampleInitArm (r : DiskRun) : ArmEnv :=
  { sampleArm with
    file := fun path => match r.now.files path with
      | some bytes => .ok bytes
      | none => .error (-ENOENT)
    snapshot := fun _ => some (.ok (1, "link 0000:01:00.0 eth0 52:54:00:12:34:56 1500\n".toList))
    archiveGranted := belowLimit }

theorem contents_names (listed : List Cpio.File) :
    (listed.flatMap Cpio.File.contents).map Cpio.Content.name = (listed.map Cpio.File.path).flatMap fun path =>
      Cpio.ancestors (path.dropWhile (· = Cpio.SLASH)) ++ [path.dropWhile (· = Cpio.SLASH)] := by
  rw [List.map_flatMap, List.flatMap_map]
  refine congrArg (listed.flatMap ·) (funext fun f => ?_)
  simp [Cpio.File.contents, Cpio.File.name, Function.comp_def]

theorem initRun_unpacked_sample :
    ∃ r initrd entries, sampleInit = some (0, r) ∧ (sampleInitArm r).initrd consoleConfig [] = some (7, initrd) ∧
      Newc.unpack initrd = some entries ∧
      entries.map (fun e => e.name) = [textBytes "init".toList, textBytes "bin".toList, textBytes "bin/login".toList,
        etcName, kmorphName, configName, etcName, kmorphName, networkName] := by
  have runs : (sampleInit.bind fun out => if out.1 = 0 then
      (out.2.now.files KMORPH_INITRD_PATH).bind fun _ => ((sampleInitArm out.2).initrd consoleConfig []).map Prod.fst
      else none) = some 7 := by decide +kernel
  obtain ⟨⟨ret, r⟩, inited, rest⟩ := Option.bind_eq_some_iff.mp runs
  split at rest
  · rename_i zero
    obtain rfl : ret = 0 := zero
    obtain ⟨image, onDisk, rest⟩ := Option.bind_eq_some_iff.mp rest
    obtain ⟨⟨fd, initrd⟩, packed, rfl⟩ := Option.map_eq_some_iff.mp rest
    change r.now.files KMORPH_INITRD_PATH = some image at onDisk
    have read : (sampleInitArm r).file KMORPH_INITRD_PATH = .ok image := by simp only [sampleInitArm, onDisk]
    have names : ∀ name ∈ loginNames consoleConfig, name ≠ Newc.TRAILER := by decide +kernel
    obtain ⟨kmorphd, login, entries, -, unpacked, contents⟩ := initRun_unpacked belowLimit
      (fun size grant => of_decide_eq_true grant) sampleSources _ none consoleConfig (fun _ => names) _ r inited
      (sampleInitArm r) (fun size grant => of_decide_eq_true grant) (by simp [sampleInitArm, sampleArm]) rfl image onDisk
      read [] _ initrd packed (by decide)
    refine ⟨r, initrd, entries, inited, packed, unpacked, ?_⟩
    have listed := congrArg (List.map Prod.fst) contents
    rw [List.map_map, List.map_map] at listed
    refine listed.trans ((contents_names _).trans ?_)
    show [textBytes "init".toList, textBytes "/bin/login".toList, KMORPH_CONFIG_PATH, NETSNAP_PATH].flatMap _ = _
    decide +kernel
  · cases rest

end Kmorph
