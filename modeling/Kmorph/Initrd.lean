import Kmorph.ArmCore
import Kmorph.Cpio

/-!
The archive `cpio.c` builds from a list of files, and the initrd of the successor:
its image, zeros up to a multiple of four, and an archive with the config.
-/

namespace Kmorph

open Cpio

/-- Files that an archive can hold. -/
structure Listed (files : List File) : Prop where
  named : ∀ f ∈ files, f.name ≠ []
  short : ∀ f ∈ files, f.name.length < 256
  fits : ∀ f ∈ files, f.data.length < 2 ^ 32
  ended : ∀ e ∈ files.flatMap File.contents, e.name ≠ Newc.TRAILER
  few : (files.flatMap File.contents).length < 2 ^ 32

def archiveLength (files : List File) : ℕ :=
  ((numbered 1 (files.flatMap File.contents ++ [trailer])).flatMap Newc.encode).length

theorem contents_short {files : List File} (short : ∀ f ∈ files, f.name.length < 256) :
    ∀ e ∈ files.flatMap File.contents, e.name.length < 256 := by
  intro e member
  obtain ⟨f, isFile, inFile⟩ := List.mem_flatMap.mp member
  rcases List.mem_append.mp inFile with directory | file
  · obtain ⟨front, isFront, rfl⟩ := List.mem_map.mp directory
    exact Nat.lt_trans (mem_ancestors isFront) (short f isFile)
  · obtain rfl := List.mem_singleton.mp file
    exact short f isFile

theorem contents_fits {files : List File} (fits : ∀ f ∈ files, f.data.length < 2 ^ 32) :
    ∀ e ∈ files.flatMap File.contents, e.data.length < 2 ^ 32 := by
  intro e member
  obtain ⟨f, isFile, inFile⟩ := List.mem_flatMap.mp member
  rcases List.mem_append.mp inFile with directory | file
  · obtain ⟨front, -, rfl⟩ := List.mem_map.mp directory
    exact Nat.two_pow_pos 32
  · obtain rfl := List.mem_singleton.mp file
    exact fits f isFile

theorem archive_spec {granted : ℕ → Bool} (limit : ∀ size, granted size = true → size < 2 ^ 63)
    {files : List File} (listed : Listed files) :
    ∃ ret c, archive granted files = some (ret, c) ∧ c.overrun = false ∧
      (Ample granted (archiveLength files) → ret = 0) ∧
      (ret = 0 → c.data.length ≤ c.block ∧ c.data.length = archiveLength files) := by
  obtain ⟨ret, c, archived, -, safe, ok, enough⟩ := archive_appends limit listed.named listed.short
  refine ⟨ret, c, archived, safe, ?_, ?_⟩
  · intro ample
    refine enough ?_ ?_
    · rw [List.forall_mem_append, List.forall_mem_singleton]
      exact ⟨contents_fits listed.fits, Nat.two_pow_pos 32⟩
    · rw [show CPIO_INIT.data.length = 0 from rfl, Nat.zero_add]
      exact ample
  · intro finished
    obtain ⟨sound, data, -⟩ := ok finished
    rw [data]
    exact ⟨data ▸ sound.within, rfl⟩

/-- An archive that was finished, behind whatever ends at a multiple of four. -/
theorem holds_archive {granted : ℕ → Bool} (limit : ∀ size, granted size = true → size < 2 ^ 63)
    {files : List File} (named : ∀ f ∈ files, f.name ≠ []) (short : ∀ f ∈ files, f.name.length < 256)
    (ended : ∀ e ∈ files.flatMap File.contents, e.name ≠ Newc.TRAILER)
    (few : (files.flatMap File.contents).length < 2 ^ 32) {c : Cpio}
    (finished : archive granted files = some (0, c)) {front : List UInt8} (aligned : 4 ∣ front.length) :
    c.Sound ∧ Holds (front ++ c.data) front.length (files.flatMap File.contents) := by
  obtain ⟨ret, c', returned, -, -, ok, -⟩ := archive_appends limit named short
  rw [finished] at returned
  obtain ⟨rfl, rfl⟩ := Prod.mk.inj (Option.some.inj returned)
  obtain ⟨sound, data, -, fits⟩ := ok rfl
  rw [data]
  exact ⟨sound, holds_of_written aligned (contents_short short)
    (fun e member => fits e (List.mem_append_left _ member)) ended few⟩

namespace Arm

/-- The error of one of the calls. -/
def Failure (answers : List WriteAnswer) (ret : Int) : Prop :=
  ∃ errno nonzero, .failed errno nonzero ∈ answers ∧ ret = -errno

theorem Failure.mono {answers more : List WriteAnswer} {ret : Int} (failure : Failure answers ret)
    (fewer : answers ⊆ more) : Failure more ret := by
  obtain ⟨errno, nonzero, member, negative⟩ := failure
  exact ⟨errno, nonzero, fewer member, negative⟩

theorem writeAll_spec {answers rest : List WriteAnswer} {file buf after : List UInt8} {ret : Int}
    (returned : writeAll answers file buf = some (ret, after, rest)) :
    (ret = 0 ∧ after = file ++ buf ∨ Failure answers ret) ∧ rest ⊆ answers := by
  induction answers generalizing file buf with
  | nil =>
      cases buf with
      | nil =>
          rw [writeAll] at returned
          cases returned
          simp
      | cons b buf => simp [writeAll] at returned
  | cons answer answers ih =>
      cases buf with
      | nil =>
          rw [writeAll] at returned
          cases returned
          simp
      | cons b buf =>
          have later {file' buf' : List UInt8} (whole : file' ++ buf' = file ++ (b :: buf))
              (returned : writeAll answers file' buf' = some (ret, after, rest)) :
              (ret = 0 ∧ after = file ++ (b :: buf) ∨ Failure (answer :: answers) ret) ∧
                rest ⊆ answer :: answers := by
            obtain ⟨outcome, fewer⟩ := ih returned
            rw [whole] at outcome
            exact ⟨outcome.imp_right (·.mono (List.subset_cons_self _ _)),
              List.subset_cons_of_subset _ fewer⟩
          cases answer with
          | wrote n =>
              rw [writeAll] at returned
              refine later ?_ returned
              rw [List.append_assoc, List.take_append_drop]
          | interrupted =>
              rw [writeAll] at returned
              exact later rfl returned
          | failed errno nonzero =>
              rw [writeAll] at returned
              cases returned
              exact ⟨Or.inr ⟨errno, nonzero, List.mem_cons_self, rfl⟩, List.subset_cons_self _ _⟩

theorem writeParts_spec {parts : List (List UInt8)} {answers : List WriteAnswer}
    {file after : List UInt8} {ret : Int} (returned : writeParts parts answers file = some (ret, after)) :
    ret = 0 ∧ after = file ++ parts.flatten ∨ Failure answers ret := by
  induction parts generalizing answers file with
  | nil =>
      rw [writeParts] at returned
      cases returned
      simp
  | cons part parts ih =>
      simp only [writeParts, Option.bind_eq_bind, Option.bind_eq_some_iff] at returned
      obtain ⟨⟨first, middle, rest⟩, wrote, returned⟩ := returned
      obtain ⟨outcome, fewer⟩ := writeAll_spec wrote
      simp only at returned
      split at returned
      · rename_i failed
        cases returned
        rcases outcome with ⟨rfl, -⟩ | failure
        · exact absurd rfl failed
        · exact Or.inr failure
      · rename_i done
        obtain rfl : first = 0 := by simpa using done
        rcases ih returned with ⟨rfl, rfl⟩ | failure
        · refine outcome.imp_left ?_
          rintro ⟨-, rfl⟩
          rw [List.flatten_cons, List.append_assoc]
          exact ⟨rfl, rfl⟩
        · exact Or.inr (failure.mono fewer)

/-- Calls that each take something write everything. -/
theorem writeAll_progress {answers : List WriteAnswer} {buf : List UInt8}
    (progress : ∀ answer ∈ answers, ∃ n, answer = .wrote (n + 1)) (enough : buf.length ≤ answers.length)
    (file : List UInt8) :
    ∃ rest, writeAll answers file buf = some (0, file ++ buf, rest) ∧
      answers.length ≤ rest.length + buf.length := by
  induction answers generalizing file buf with
  | nil =>
      obtain rfl : buf = [] := List.length_eq_zero_iff.mp (Nat.le_zero.mp enough)
      exact ⟨[], by simp [writeAll], by simp⟩
  | cons answer answers ih =>
      cases buf with
      | nil => exact ⟨answer :: answers, by simp [writeAll], by simp⟩
      | cons b buf =>
          obtain ⟨n, rfl⟩ := progress answer (by simp)
          have shorter : ((b :: buf).drop (n + 1)).length ≤ buf.length := by
            rw [List.length_drop, List.length_cons]
            omega
          simp only [List.length_cons] at enough
          obtain ⟨rest, wrote, left⟩ := @ih ((b :: buf).drop (n + 1))
            (fun other member => progress other (by simp [member])) (by omega)
            (file ++ (b :: buf).take (n + 1))
          refine ⟨rest, ?_, ?_⟩
          · rw [writeAll, wrote, List.append_assoc, List.take_append_drop]
          · simp only [List.length_cons]
            omega

theorem writeParts_progress {parts : List (List UInt8)} {answers : List WriteAnswer}
    (progress : ∀ answer ∈ answers, ∃ n, answer = .wrote (n + 1))
    (enough : parts.flatten.length ≤ answers.length) (file : List UInt8) :
    writeParts parts answers file = some (0, file ++ parts.flatten) := by
  induction parts generalizing answers file with
  | nil => simp [writeParts]
  | cons part parts ih =>
      rw [List.flatten_cons, List.length_append] at enough
      obtain ⟨rest, wrote, left⟩ := @writeAll_progress answers part progress (by omega) file
      have fewer := (writeAll_spec wrote).2
      have later := @ih rest (fun answer member => progress answer (fewer member)) (by omega)
        (file ++ part)
      simp only [writeParts, wrote, Option.bind_eq_bind, Option.bind_some, ne_eq, not_true_eq_false,
        if_false, later, List.flatten_cons, List.append_assoc]

end Arm

/-- The files of the archive behind the image. -/
def initrdFiles (text : List UInt8) (snapshot : Snapshot) : List File :=
  ⟨KMORPH_CONFIG_PATH, text, 0o644⟩ ::
    (snapshot.bind Except.toOption).toList.map fun (_, identity) =>
      ⟨NETSNAP_PATH, textBytes identity, 0o644⟩

theorem andThen_ok (result : Option (Int × Cpio)) :
    andThen result (fun c => some (0, c)) = result := by
  match result with
  | none => rfl
  | some (ret, c) =>
      rw [andThen]
      by_cases done : ret = 0
      · rw [if_neg (not_not.mpr done), done]
      · rw [if_pos done]

theorem initrdArchive_eq (granted : ℕ → Bool) (text : List UInt8) (snapshot : Snapshot) :
    initrdArchive granted text snapshot = archive granted (initrdFiles text snapshot) := by
  rcases snapshot with _ | _ | ⟨links, identity⟩
  · rfl
  · rfl
  · have last (c : Cpio) : addFiles granted c [⟨NETSNAP_PATH, textBytes identity, 0o644⟩] =
        addFile granted c NETSNAP_PATH (textBytes identity) 0o644 := by
      rw [addFiles]
      exact andThen_ok _
    show andThen (andThen _ fun c => addFile granted c NETSNAP_PATH (textBytes identity) 0o644) _ =
      andThen (andThen _ fun c => addFiles granted c [⟨NETSNAP_PATH, textBytes identity, 0o644⟩]) _
    simp only [last]

def etcName : List UInt8 := textBytes "etc".toList
def kmorphName : List UInt8 := textBytes "etc/kmorph".toList
def configName : List UInt8 := textBytes "etc/kmorph/kmorph.conf".toList
def networkName : List UInt8 := textBytes "etc/kmorph/network".toList

theorem initrd_modes : S_IFDIR ||| 0o755 = 0o40755 ∧ S_IFREG ||| (0o644 &&& 0o7777) = 0o100644 := by
  decide

theorem config_name (text : List UInt8) (mode : UInt32) :
    File.name ⟨KMORPH_CONFIG_PATH, text, mode⟩ = configName := by
  show KMORPH_CONFIG_PATH.dropWhile (· = SLASH) = configName
  decide +kernel

theorem network_name (identity : List UInt8) (mode : UInt32) :
    File.name ⟨NETSNAP_PATH, identity, mode⟩ = networkName := by
  show NETSNAP_PATH.dropWhile (· = SLASH) = networkName
  decide +kernel

theorem config_contents (text : List UInt8) :
    File.contents ⟨KMORPH_CONFIG_PATH, text, 0o644⟩ =
      [⟨etcName, 0o40755, []⟩, ⟨kmorphName, 0o40755, []⟩, ⟨configName, 0o100644, text⟩] := by
  have directories : ancestors configName = [etcName, kmorphName] := by decide +kernel
  rw [File.contents, config_name, directories, initrd_modes.1, initrd_modes.2]
  rfl

theorem network_contents (identity : List UInt8) :
    File.contents ⟨NETSNAP_PATH, identity, 0o644⟩ =
      [⟨etcName, 0o40755, []⟩, ⟨kmorphName, 0o40755, []⟩, ⟨networkName, 0o100644, identity⟩] := by
  have directories : ancestors networkName = [etcName, kmorphName] := by decide +kernel
  rw [File.contents, network_name, directories, initrd_modes.1, initrd_modes.2]
  rfl

theorem initrd_names :
    (∀ name ∈ [configName, networkName], name ≠ [] ∧ name.length < 256) ∧
      (∀ name ∈ [etcName, kmorphName, networkName], name ≠ configName) ∧
      ∀ name ∈ [etcName, kmorphName, configName, networkName], name ≠ Newc.TRAILER := by
  decide +kernel

/-- `cpio.c` refuses none of the files, and one entry is of the config. -/
theorem initrdFiles_spec (text : List UInt8) (snapshot : Snapshot) :
    (∀ f ∈ initrdFiles text snapshot, f.name ≠ [] ∧ f.name.length < 256) ∧
      (∀ e ∈ (initrdFiles text snapshot).flatMap File.contents, e.name ≠ Newc.TRAILER) ∧
      ((initrdFiles text snapshot).flatMap File.contents).length < 2 ^ 32 ∧
      ((initrdFiles text snapshot).flatMap File.contents).filter (·.name = configName) =
        [⟨configName, 0o100644, text⟩] := by
  obtain ⟨accepted, others, named⟩ := initrd_names
  simp only [List.forall_mem_cons, List.not_mem_nil, false_implies, implies_true, and_true] at *
  unfold initrdFiles
  cases snapshot.bind Except.toOption with
  | none => simp [config_contents, config_name, accepted, others, named]
  | some identity =>
      simp [config_contents, network_contents, config_name, network_name, accepted, others, named]

theorem initrdZeros_spec (len : ℕ) :
    (initrdZeros len).length ≤ 3 ∧ (∀ b ∈ initrdZeros len, b = 0) ∧
      4 ∣ len + (initrdZeros len).length := by
  refine ⟨?_, fun b member => List.eq_of_mem_replicate member, ?_⟩
  · rw [initrdZeros, List.length_replicate]
    omega
  · rw [initrdZeros, List.length_replicate]
    omega

/-- The image, at most three zeros, and the archive where the kernel takes a header; one entry of
the archive is of the config. -/
def Assembled (granted : ℕ → Bool) (image text : List UInt8) (snapshot : Snapshot)
    (file : List UInt8) : Prop :=
  ∃ zeros c, archive granted (initrdFiles text snapshot) = some (0, c) ∧
    file = image ++ zeros ++ c.data ∧ zeros.length ≤ 3 ∧ (∀ b ∈ zeros, b = 0) ∧
    4 ∣ (image ++ zeros).length ∧
    Holds c.data 0 ((initrdFiles text snapshot).flatMap File.contents) ∧
    Holds file (image ++ zeros).length ((initrdFiles text snapshot).flatMap File.contents) ∧
    ((initrdFiles text snapshot).flatMap File.contents).filter (·.name = configName) =
      [⟨configName, 0o100644, text⟩]

theorem assembled_of_archive {granted : ℕ → Bool}
    (limit : ∀ size, granted size = true → size < 2 ^ 63) {text : List UInt8} {snapshot : Snapshot}
    {c : Cpio} (finished : archive granted (initrdFiles text snapshot) = some (0, c))
    (image : List UInt8) :
    Assembled granted image text snapshot (image ++ initrdZeros image.length ++ c.data) := by
  obtain ⟨accepted, ended, few, config⟩ := initrdFiles_spec text snapshot
  obtain ⟨short, zero, aligned⟩ := initrdZeros_spec image.length
  rw [← List.length_append] at aligned
  have holds {front : List UInt8} (start : 4 ∣ front.length) :=
    (holds_archive limit (fun f member => (accepted f member).1) (fun f member => (accepted f member).2)
      ended few finished start).2
  exact ⟨initrdZeros image.length, c, finished, rfl, short, zero, aligned,
    @holds [] (Nat.dvd_zero 4), holds aligned, config⟩

/-- What a result that is a descriptor says of the calls before. -/
theorem successorInitrd_assembled {granted : ℕ → Bool}
    (limit : ∀ size, granted size = true → size < 2 ^ 63) {image text : List UInt8}
    {snapshot : Snapshot} {memfd fd : Int} {answers : List WriteAnswer} {file : List UInt8}
    (errnos : ∀ errno nonzero, .failed errno nonzero ∈ answers → 0 < errno)
    (returned : successorInitrd granted (.ok image) text snapshot memfd answers = some (fd, file))
    (opened : 0 ≤ fd) : Assembled granted image text snapshot file := by
  obtain ⟨accepted, -⟩ := initrdFiles_spec text snapshot
  obtain ⟨ret, c, archived, negative, -⟩ := archive_appends limit
    (fun f member => (accepted f member).1) (fun f member => (accepted f member).2)
  simp only [successorInitrd, initrdArchive_eq, archived, Option.bind_eq_bind, Option.bind_some]
    at returned
  split at returned
  · rename_i failed
    cases returned
    omega
  · rename_i done
    obtain rfl : ret = 0 := by simpa using done
    split at returned
    · cases returned
      omega
    · simp only [Option.bind_eq_some_iff] at returned
      obtain ⟨⟨ret, written⟩, wrote, returned⟩ := returned
      simp only at returned
      rcases Arm.writeParts_spec wrote with ⟨rfl, rfl⟩ | ⟨errno, nonzero, member, rfl⟩
      · rw [if_neg (by decide)] at returned
        cases returned
        have assembled := assembled_of_archive limit archived image
        simpa using assembled
      · have positive := errnos errno nonzero member
        rw [if_pos (by omega)] at returned
        cases returned
        omega

theorem successorInitrd_returns {granted : ℕ → Bool} {image text : List UInt8} {snapshot : Snapshot}
    {c : Cpio} (finished : archive granted (initrdFiles text snapshot) = some (0, c)) {memfd : Int}
    (opened : 0 ≤ memfd) {answers : List WriteAnswer}
    (progress : ∀ answer ∈ answers, ∃ n, answer = .wrote (n + 1))
    (enough : image.length + 3 + c.data.length ≤ answers.length) :
    successorInitrd granted (.ok image) text snapshot memfd answers =
      some (memfd, image ++ initrdZeros image.length ++ c.data) := by
  have short := (initrdZeros_spec image.length).1
  have wrote := @Arm.writeParts_progress [image, initrdZeros image.length, c.data] answers progress
    (by simp only [List.flatten_cons, List.flatten_nil, List.length_append, List.length_nil]; omega) []
  simp only [successorInitrd, initrdArchive_eq, finished, Option.bind_eq_bind, Option.bind_some,
    ne_eq, not_true_eq_false, if_false, if_neg (Int.not_lt.mpr opened), wrote]
  simp

/-- The archive of any files that can be listed holds them, and the initrd is the image and such an
archive. Both are built if there is memory and every call of `write` takes something. -/
theorem archive_initrd_exact (granted : ℕ → Bool)
    (limit : ∀ size, granted size = true → size < 2 ^ 63) :
    (∀ files, Listed files → ∃ ret c, archive granted files = some (ret, c) ∧ c.overrun = false ∧
      (Ample granted (archiveLength files) → ret = 0) ∧
      (ret = 0 → c.data.length ≤ c.block ∧ Holds c.data 0 (files.flatMap File.contents))) ∧
    ∀ image text snapshot memfd answers,
      ((∀ errno nonzero, .failed errno nonzero ∈ answers → 0 < errno) → ∀ fd file,
        successorInitrd granted (.ok image) text snapshot memfd answers = some (fd, file) →
        0 ≤ fd → Assembled granted image text snapshot file) ∧
      ((∀ f ∈ initrdFiles text snapshot, f.data.length < 2 ^ 32) →
        Ample granted (archiveLength (initrdFiles text snapshot)) → 0 ≤ memfd →
        (∀ answer ∈ answers, ∃ n, answer = .wrote (n + 1)) →
        image.length + 3 + archiveLength (initrdFiles text snapshot) ≤ answers.length →
        ∃ file, successorInitrd granted (.ok image) text snapshot memfd answers = some (memfd, file)) := by
  constructor
  · intro files listed
    obtain ⟨ret, c, archived, safe, enough, ok⟩ := archive_spec limit listed
    refine ⟨ret, c, archived, safe, enough, ?_⟩
    rintro rfl
    exact ⟨(ok rfl).1, (@holds_archive _ limit _ listed.named listed.short listed.ended listed.few _
      archived [] (Nat.dvd_zero 4)).2⟩
  · intro image text snapshot memfd answers
    refine ⟨fun errnos fd file returned opened =>
      successorInitrd_assembled limit errnos returned opened, ?_⟩
    intro fits ample opened progress enough
    obtain ⟨accepted, ended, few, -⟩ := initrdFiles_spec text snapshot
    obtain ⟨ret, c, archived, -, done, ok⟩ := archive_spec limit
      ⟨fun f member => (accepted f member).1, fun f member => (accepted f member).2, fits, ended, few⟩
    obtain rfl := done ample
    exact ⟨_, successorInitrd_returns archived opened progress ((ok rfl).2 ▸ enough)⟩

theorem ample_of_le {total : ℕ} (small : total ≤ 2 ^ 32) :
    Ample (fun size => decide (size < 2 ^ 63)) total := by
  intro size bound
  exact decide_eq_true (by omega)

theorem archive_initrd_sample :
    (∃ c, archive (fun size => decide (size < 2 ^ 63)) [⟨textBytes "//a/b".toList, [7], 0o755⟩] =
        some (0, c) ∧
      Holds c.data 0 [⟨textBytes "a".toList, 0o40755, []⟩, ⟨textBytes "a/b".toList, 0o100755, [7]⟩]) ∧
    ∃ file, successorInitrd (fun size => decide (size < 2 ^ 63)) (.ok [1, 2, 3, 4, 5]) [35] none 3
        (List.replicate 1000 (.wrote 1)) = some (3, file) ∧
      Assembled (fun size => decide (size < 2 ^ 63)) [1, 2, 3, 4, 5] [35] none file := by
  have whole := archive_initrd_exact (fun size => decide (size < 2 ^ 63))
    (fun size grant => of_decide_eq_true grant)
  constructor
  · obtain ⟨ret, c, archived, -, done, ok⟩ := whole.1 [⟨textBytes "//a/b".toList, [7], 0o755⟩]
      ⟨by decide +kernel, by decide +kernel, by decide +kernel, by decide +kernel, by decide +kernel⟩
    obtain rfl := done (ample_of_le (by decide +kernel))
    have holds := (ok rfl).2
    have contents : [⟨textBytes "//a/b".toList, [7], 0o755⟩].flatMap File.contents =
        [⟨textBytes "a".toList, 0o40755, []⟩, ⟨textBytes "a/b".toList, 0o100755, [7]⟩] := by
      decide +kernel
    rw [contents] at holds
    exact ⟨c, archived, holds⟩
  · obtain ⟨assembled, returns⟩ := whole.2 [1, 2, 3, 4, 5] [35] none 3 (List.replicate 1000 (.wrote 1))
    have answered (answer : WriteAnswer) (member : answer ∈ List.replicate 1000 (.wrote 1)) :
        answer = .wrote 1 := List.eq_of_mem_replicate member
    obtain ⟨file, returned⟩ := returns (by decide +kernel) (ample_of_le (by decide +kernel))
      (by decide) (fun answer member => ⟨0, answered answer member⟩)
      (by rw [List.length_replicate]; decide +kernel)
    refine ⟨file, returned, assembled ?_ 3 file returned (by decide)⟩
    intro errno nonzero member
    cases answered _ member

end Kmorph
