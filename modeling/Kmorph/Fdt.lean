import Kmorph.FdtFinish
import Kmorph.FdtTrees

/-!
`fdtutil_build` and the readers together: a tree is built whenever it fits, and what
is read from the blob is the tree.
-/

namespace Kmorph.Fdt

open BigEndian Brackets Extents

def Writable (tree : Node) : Prop := ∀ token ∈ tree.tokens [], ValidToken token ∧ ShortName token

def nameTable (calls : List FdtToken) : List UInt8 := internAll [] calls

def takenBy (calls : List FdtToken) : ℕ := 64 + tokensSize calls + (nameTable calls).length

namespace Emission

variable (e : Emission)

/-- The buffer that is needed for all the calls and, where none is given up, for the end of the tree. -/
def needs : ℕ := takenBy e.calls + if e.ret = 0 then 4 else 0

/-- The size is asked for if the smaller ones do not do. -/
def Asked (doubled : ℕ) : Prop := doubled ≤ 8 ∧ ∀ earlier < doubled, attemptSize earlier < e.needs

/-- In an attempt of the size there is no memory for a copy, once the calls before it are made. -/
def GaveUp (cells : ℕ → Bool) (size : ℕ) : Prop :=
  ∃ call < e.calls.length, cells call = false ∧ takenBy (e.calls.take call) ≤ size

end Emission

def treeEmission (tree : Node) : Emission := ⟨tree.tokens [], 0⟩

def neededSize (tree : Node) : ℕ := (treeEmission tree).needs

section Emit

variable {cells : ℕ → Bool} {calls : List FdtToken} {fdt : List UInt8}

theorem emitCalls_granted (granted : ∀ call < calls.length, cells call = true) :
    emitCalls cells calls fdt = calls.foldlM fdtCall fdt := by
  induction calls generalizing cells fdt with
  | nil => rfl
  | cons token calls ih =>
      have later (fdt : List UInt8) := @ih (fun call => cells (call + 1)) fdt fun call inside =>
        granted (call + 1) (Nat.succ_lt_succ inside)
      rw [emitCalls, if_pos (granted 0 (Nat.succ_pos _)), List.foldlM_cons]
      exact congrArg (fdtCall fdt token >>= ·) (funext later)

theorem emitCalls_refused {call : ℕ} (inside : call < calls.length) (refused : cells call = false)
    (before : ∀ earlier < call, cells earlier = true) :
    emitCalls cells calls fdt =
      (calls.take call).foldlM fdtCall fdt >>= fun _ => .error (-FDT_ERR_INTERNAL) := by
  induction calls generalizing cells call fdt with
  | nil => cases inside
  | cons token calls ih =>
      cases call with
      | zero =>
          rw [emitCalls, if_neg (by simp [refused])]
          rfl
      | succ call =>
          have later (fdt : List UInt8) := @ih (fun call => cells (call + 1)) fdt call
            (Nat.lt_of_succ_lt_succ inside) refused fun earlier less =>
              before (earlier + 1) (Nat.succ_lt_succ less)
          rw [emitCalls, if_pos (before 0 (Nat.succ_pos _)), List.take_succ_cons, List.foldlM_cons,
            bind_assoc]
          exact congrArg (fdtCall fdt token >>= ·) (funext later)

end Emit

section Build

variable {e : Emission} {cells : ℕ → Bool} {size : ℕ}

theorem foldlM_calls {calls : List FdtToken} (short : ∀ token ∈ calls, ShortName token) (small : size ≤ INT_MAX)
    (room : 64 ≤ size) :
    if takenBy calls ≤ size then
      ∃ bytes, Encodes (nameTable calls) swOffset calls bytes ∧
        calls.foldlM fdtCall (swBuffer size [] []) = .ok (swBuffer size bytes (nameTable calls))
    else calls.foldlM fdtCall (swBuffer size [] []) = .error (-FDT_ERR_NOSPACE) := by
  have run := @foldlM_fdtCall size [] [] calls small (by simpa using room) short
  rw [List.length_nil, Nat.zero_add, ← nameTable] at run
  exact run

theorem short_take {calls : List FdtToken} (short : ∀ token ∈ calls, ShortName token) (call : ℕ) :
    ∀ token ∈ calls.take call, ShortName token :=
  fun token member => short token (List.mem_of_mem_take member)

theorem takenBy_take {calls : List FdtToken} (short : ∀ token ∈ calls, ShortName token) (small : size ≤ INT_MAX)
    (room : 64 ≤ size) (call : ℕ) (fits : takenBy calls ≤ size) : takenBy (calls.take call) ≤ size := by
  by_contra full
  have whole := foldlM_calls short small room
  have part := foldlM_calls (short_take short call) small room
  rw [if_neg full] at part
  rw [if_pos fits, ← List.take_append_drop call calls, List.foldlM_append, part] at whole
  obtain ⟨bytes, -, failed⟩ := whole
  cases failed

/-- What one attempt comes to. -/
inductive Attempt (e : Emission) (cells : ℕ → Bool) (size : ℕ) : Option (Except Int (List UInt8)) → Prop
  | full (full : size < e.needs) (kept : ¬ e.GaveUp cells size) : Attempt e cells size (some (.error (-FDT_ERR_NOSPACE)))
  | gaveUp (gaveUp : e.GaveUp cells size) : Attempt e cells size (some (.error (-FDT_ERR_INTERNAL)))
  | failed (failed : e.ret ≠ 0) (kept : ¬ e.GaveUp cells size) : Attempt e cells size (some (.error e.ret))
  | done {fixed junk : List UInt8} (done : e.ret = 0) (fits : e.needs ≤ size) (kept : ¬ e.GaveUp cells size)
      (encodes : Encodes (nameTable e.calls) (fun k => (nameTable e.calls).length - k) e.calls fixed) :
      Attempt e cells size (some (.ok (blob
        (finishedHeader (tokensSize e.calls + 4) (nameTable e.calls).length) 24
        (fixed ++ encode 4 FdtTag.stop.word) (nameTable e.calls ++ junk))))

theorem fdtutilTryBuild_run (fn : List UInt8 → Except Int (List UInt8)) (small : size ≤ INT_MAX) (room : 64 ≤ size) :
    fdtutilTryBuild fn size =
      match fn (swBuffer size [] []) with
      | .error errno => some (.error errno)
      | .ok fdt => fdtFinish fdt := by
  rw [fdtutilTryBuild, fdtCreate_created (by omega)]
  cases written : fn (swBuffer size [] []) with
  | error errno => simp only [bind, Except.bind, fdtFinishReservemap_created small room, written]
  | ok fdt => simp only [bind, Except.bind, fdtFinishReservemap_created small room, written]

theorem attempt_refused (short : ∀ token ∈ e.calls, ShortName token) (small : size ≤ INT_MAX) (room : 64 ≤ size)
    (refused : ∃ call, call < e.calls.length ∧ cells call = false) :
    Attempt e cells size (fdtutilTryBuild (e.run cells) size) := by
  classical
  have taken : takenBy e.calls ≤ e.needs := Nat.le_add_right _ _
  -- Up to the first refusal the calls are made as if there were none.
  obtain ⟨inside, none⟩ := Nat.find_spec refused
  have before : ∀ earlier < Nat.find refused, cells earlier = true := by
    intro earlier less
    have granted := Nat.find_min refused less
    simpa [Nat.lt_trans less inside] using granted
  have part := foldlM_calls (short_take short (Nat.find refused)) small room
  rw [fdtutilTryBuild_run _ small room, Emission.run, emitCalls_refused inside none before]
  split at part
  · rename_i fits
    obtain ⟨bytes, -, made⟩ := part
    rw [made]
    exact .gaveUp ⟨_, inside, none, fits⟩
  · rename_i full
    have large : size < takenBy e.calls := by
      by_contra fits
      exact full (takenBy_take short small room _ (by omega))
    rw [part]
    refine .full (by omega) ?_
    rintro ⟨call, callInside, callRefused, reached⟩
    -- A later refusal is not reached either.
    have first : Nat.find refused ≤ call := Nat.find_min' refused ⟨callInside, callRefused⟩
    have early := takenBy_take (short_take short call) small room (Nat.find refused) reached
    rw [List.take_take, Nat.min_eq_left first] at early
    exact full early

theorem attempt_finished {bytes : List UInt8} (valid : ∀ token ∈ e.calls, ValidToken token) (small : size ≤ INT_MAX)
    (struct : takenBy e.calls ≤ size) (encodes : Encodes (nameTable e.calls) swOffset e.calls bytes)
    (done : e.ret = 0) (kept : ¬ e.GaveUp cells size) :
    Attempt e cells size (fdtFinish (swBuffer size bytes (nameTable e.calls))) := by
  have needs : e.needs = takenBy e.calls + 4 := by rw [Emission.needs, if_pos done]
  have length := encodes.length
  have finished := fdtFinish_swBuffer small (by rw [takenBy] at struct; omega) encodes valid
  rw [length] at finished
  split at finished
  · rename_i fits
    obtain ⟨fixed, junk, fixedEncodes, finish⟩ := finished
    rw [finish]
    exact .done done (by rw [needs, takenBy]; omega) kept fixedEncodes
  · rename_i full
    rw [finished]
    exact .full (by rw [needs, takenBy]; omega) kept

theorem fdtutilTryBuild_attempt (writable : ∀ token ∈ e.calls, ValidToken token ∧ ShortName token)
    (small : size ≤ INT_MAX) (room : 64 ≤ size) : Attempt e cells size (fdtutilTryBuild (e.run cells) size) := by
  have short : ∀ token ∈ e.calls, ShortName token := fun token member => (writable token member).2
  by_cases refused : ∃ call, call < e.calls.length ∧ cells call = false
  · exact attempt_refused short small room refused
  have granted : ∀ call < e.calls.length, cells call = true := by
    intro call inside
    by_contra other
    exact refused ⟨call, inside, by simpa using other⟩
  have kept : ¬ e.GaveUp cells size := by
    rintro ⟨call, inside, none, -⟩
    exact refused ⟨call, inside, none⟩
  have whole := foldlM_calls short small room
  rw [fdtutilTryBuild_run _ small room, Emission.run, emitCalls_granted granted]
  split at whole
  · rename_i struct
    obtain ⟨bytes, encodes, made⟩ := whole
    rw [made]
    by_cases done : e.ret = 0
    · simp only [bind, Except.bind, done, ne_eq, not_true_eq_false, if_false]
      exact attempt_finished (fun token member => (writable token member).1) small struct encodes done kept
    · simp only [bind, Except.bind, done, ne_eq, not_false_eq_true, if_true]
      exact .failed done kept
  · rename_i full
    have taken : takenBy e.calls ≤ e.needs := Nat.le_add_right _ _
    rw [whole]
    exact .full (by omega) kept

theorem take_packed (struct table junk : List UInt8) :
    (blob (packedHeader struct.length table.length) 16 struct (table ++ junk)).take (56 + struct.length + table.length) =
      blob (packedHeader struct.length table.length) 16 struct table := by
  have parts : blob (packedHeader struct.length table.length) 16 struct (table ++ junk) =
      blob (packedHeader struct.length table.length) 16 struct table ++ junk := by
    simp only [blob, List.append_assoc]
  rw [parts, List.take_left' (by rw [length_blob])]

theorem packedHeader_lt {struct table : ℕ} (small : 56 + struct + table ≤ INT_MAX) (f : HeaderField) :
    packedHeader struct table f < 2 ^ 32 := by
  simp only [INT_MAX] at small
  exact treeHeader_lt (by omega) f

theorem fdtPack_take {struct table junk : List UInt8} (small : 64 + struct.length + table.length < INT_MAX) :
    (fdtPack (blob (finishedHeader struct.length table.length) 24 struct (table ++ junk))).map
        (fun fdt => fdt.take (fdtHeader fdt .totalsize)) =
      some (blob (packedHeader struct.length table.length) 16 struct table) := by
  obtain ⟨junk', packed⟩ := fdtPack_finished small junk
  rw [packed, Option.map_some, header_blob (packedHeader_lt (by omega) _)]
  exact congrArg some (take_packed struct table junk')

theorem checkBlock_of_inside {hdrsize totalsize base size : ℕ} (start : hdrsize ≤ base)
    (inside : base + size ≤ totalsize) (small : totalsize ≤ INT_MAX) :
    checkBlock hdrsize totalsize base size = true := by
  simp only [INT_MAX] at small
  have sum : cuint (base + size) = base + size := by
    rw [cuint]
    omega
  simp only [checkBlock, checkOff, sum, Bool.and_eq_true, Bool.not_eq_true', decide_eq_true_eq,
    decide_eq_false_iff_not]
  omega

theorem flat_packed {tokens : List FdtToken} {bytes table : List UInt8}
    (encodes : Encodes table (fun k => table.length - k) tokens bytes) (valid : ∀ token ∈ tokens, ValidToken token)
    (small : 56 + (bytes.length + 4) + table.length < INT_MAX) :
    Flat (blob (packedHeader (bytes.length + 4) table.length) 16 (bytes ++ encode 4 FdtTag.stop.word) table)
      tokens := by
  have longer : (bytes ++ encode 4 FdtTag.stop.word).length = bytes.length + 4 := by simp
  generalize struct_eq : bytes ++ encode 4 FdtTag.stop.word = struct at longer ⊢
  rw [← longer] at small ⊢
  have header (f : HeaderField) : fdtHeader (blob (packedHeader struct.length table.length) 16 struct table) f =
      packedHeader struct.length table.length f := header_blob (packedHeader_lt (by omega) f)
  have length : (blob (packedHeader struct.length table.length) 16 struct table).length =
      56 + struct.length + table.length := length_blob _ _ _ _
  have names := @cells_middle _ (56 + struct.length) table.length
    (headerBytes (packedHeader struct.length table.length) ++ (zeros 16 ++ struct)) table [] (by simp; omega) rfl
  have block := @cells_middle _ 56 struct.length
    (headerBytes (packedHeader struct.length table.length) ++ zeros 16) struct table (by simp) rfl
  simp only [List.append_assoc, List.append_nil] at names block
  rw [← blob] at names block
  have stored : strings (blob (packedHeader struct.length table.length) 16 struct table) = table := by
    rw [strings, header, header]
    exact names
  have checked : fdtCheckHeader (blob (packedHeader struct.length table.length) 16 struct table) = 0 := by
    have size : fdtHeaderSize FDT_LAST_SUPPORTED_VERSION = 40 := rfl
    rw [fdtCheckHeader_eq_zero]
    simp only [header, packedHeader, treeHeader, size]
    refine ⟨trivial, by decide, by decide, ⟨by omega, by omega⟩, ?_, fun old => absurd old (by decide), fun _ => ?_, ?_⟩
    · simp only [checkOff, Bool.and_eq_true, decide_eq_true_eq]
      omega
    · exact checkBlock_of_inside (by omega) (by omega) (by omega)
    · exact checkBlock_of_inside (by omega) (by omega) (by omega)
  refine ⟨?_, ?_, ?_, valid, bytes, ?_, ?_⟩
  · rw [fdtutilCheck, length, FDT_HEADER_SIZE, if_neg (by rw [checked]; omega), if_pos (by rw [header]; rfl)]
  · rw [header]
    exact Nat.le_refl _
  · rw [header]
    exact small
  · rw [stored]
    exact encodes
  · rw [header, header, struct_eq]
    exact block

section Loop

variable {memory : BuildMemory} {doubled : ℕ}

theorem attempt_small (most : doubled ≤ 8) : 64 ≤ attemptSize doubled ∧ attemptSize doubled ≤ 4 * 1024 * 1024 := by
  have power : 2 ^ doubled ≤ 2 ^ 8 := Nat.pow_le_pow_right (by decide) most
  have positive : 0 < 2 ^ doubled := Nat.two_pow_pos doubled
  rw [attemptSize]
  omega

theorem attempt_last : attemptSize 8 = 4 * 1024 * 1024 := rfl

theorem attempt_more (more : doubled < 8) : attemptSize doubled < 4 * 1024 * 1024 := by
  have power : 2 ^ doubled < 2 ^ 8 := Nat.pow_lt_pow_right (by decide) more
  rw [attemptSize]
  omega

theorem packed_flat {fixed junk : List UInt8} (writable : ∀ token ∈ e.calls, ValidToken token ∧ ShortName token)
    (done : e.ret = 0) (fits : e.needs ≤ 4 * 1024 * 1024)
    (encodes : Encodes (nameTable e.calls) (fun k => (nameTable e.calls).length - k) e.calls fixed) :
    ∃ fdt, (fdtPack (blob (finishedHeader (tokensSize e.calls + 4) (nameTable e.calls).length) 24
        (fixed ++ encode 4 FdtTag.stop.word) (nameTable e.calls ++ junk))).map
          (fun fdt => fdt.take (fdtHeader fdt .totalsize)) = some fdt ∧
      Flat fdt e.calls ∧ fdt.length = e.needs - 8 := by
  have length := encodes.length
  have longer : (fixed ++ encode 4 FdtTag.stop.word).length = tokensSize e.calls + 4 := by simp [length]
  rw [Emission.needs, if_pos done, takenBy] at fits ⊢
  have small : 64 + (fixed ++ encode 4 FdtTag.stop.word).length + (nameTable e.calls).length < INT_MAX := by
    rw [longer]
    simp only [INT_MAX]
    omega
  have packed := @fdtPack_take _ _ junk small
  have flat := flat_packed encodes (fun token member => (writable token member).1) (by rw [length]; omega)
  rw [longer] at packed
  rw [length] at flat
  refine ⟨_, packed, flat, ?_⟩
  rw [length_blob, longer]
  omega

/-- What `fdtutil_build` may return: the blob, or why there is none. -/
inductive Built (memory : BuildMemory) (e : Emission) : Except Int (List UInt8) → Prop
  | blob {fdt : List UInt8} (done : e.ret = 0) (flat : Flat fdt e.calls) (length : fdt.length = e.needs - 8)
      (fits : e.needs ≤ 4 * 1024 * 1024) (buffers : ∀ doubled, e.Asked doubled → memory.buffer (attemptSize doubled) = true)
      (kept : ∀ doubled, e.Asked doubled → ¬ e.GaveUp (memory.cells doubled) (attemptSize doubled)) :
      Built memory e (.ok fdt)
  | refused {doubled : ℕ} (asked : e.Asked doubled) (refused : memory.buffer (attemptSize doubled) = false) :
      Built memory e (.error (-ENOMEM))
  | gaveUp {doubled : ℕ} (asked : e.Asked doubled) (gaveUp : e.GaveUp (memory.cells doubled) (attemptSize doubled)) :
      Built memory e (.error (-EINVAL))
  | failed (failed : e.ret ≠ 0) : Built memory e (.error (-EINVAL))
  | large (large : 4 * 1024 * 1024 < e.needs) : Built memory e (.error (-ENOSPC))

theorem Emission.Asked.next (asked : e.Asked doubled) (more : doubled ≠ 8) (full : attemptSize doubled < e.needs) :
    e.Asked (doubled + 1) := by
  refine ⟨?_, Nat.forall_lt_succ_right.mpr ⟨asked.2, full⟩⟩
  have most := asked.1
  omega

theorem Emission.Asked.le_of_fits {other : ℕ} (asked : e.Asked other) (fits : e.needs ≤ attemptSize doubled) :
    other ≤ doubled := by
  by_contra later
  have full := asked.2 doubled (Nat.not_le.mp later)
  omega

theorem buildLoop_built {doubled : ℕ} (writable : ∀ token ∈ e.calls, ValidToken token ∧ ShortName token)
    (apart : e.ret ≠ -FDT_ERR_NOSPACE) (asked : e.Asked doubled)
    (earlier : ∀ before < doubled, memory.buffer (attemptSize before) = true ∧
      ¬ e.GaveUp (memory.cells before) (attemptSize before)) :
    ∃ r, buildLoop memory e doubled = some r ∧ Built memory e r := by
  have limit := attempt_small asked.1
  rw [buildLoop]
  cases grants : memory.buffer (attemptSize doubled) with
  | false => exact ⟨_, rfl, .refused asked grants⟩
  | true =>
      have attempt : Attempt e (memory.cells doubled) _ _ := fdtutilTryBuild_attempt writable
        (by simp only [INT_MAX]; omega) limit.1
      rw [if_neg (by simp)]
      generalize fdtutilTryBuild (e.run (memory.cells doubled)) (attemptSize doubled) = tried at attempt
      cases attempt with
      | gaveUp gaveUp => exact ⟨_, rfl, .gaveUp asked gaveUp⟩
      | failed failed =>
          exact ⟨_, by simp only [apart, ne_eq, not_false_eq_true, if_true], .failed failed⟩
      | full full kept =>
          simp only [ne_eq, not_true_eq_false, if_false]
          by_cases last : doubled = 8
          · rw [last, attempt_last] at full
            rw [last, if_pos attempt_last.ge]
            exact ⟨_, rfl, .large full⟩
          · have least := asked.1
            rw [if_neg (Nat.not_le.mpr (attempt_more (by omega)))]
            exact buildLoop_built writable apart (asked.next last full)
              (Nat.forall_lt_succ_right.mpr ⟨earlier, grants, kept⟩)
      | @done fixed junk done fits kept encodes =>
          obtain ⟨fdt, packed, flat, length⟩ := @packed_flat e fixed junk writable done (by omega) encodes
          obtain ⟨whole, made, cut⟩ := Option.map_eq_some_iff.mp packed
          have served (other : ℕ) (otherAsked : e.Asked other) : memory.buffer (attemptSize other) = true ∧
              ¬ e.GaveUp (memory.cells other) (attemptSize other) := by
            rcases (otherAsked.le_of_fits fits).lt_or_eq with less | rfl
            · exact earlier other less
            · exact ⟨grants, kept⟩
          refine ⟨.ok fdt, ?_, .blob done flat length (by omega) (fun other asks => (served other asks).1)
            fun other asks => (served other asks).2⟩
          simp only [made, Option.bind_eq_bind, Option.bind_some, cut]
          rfl
termination_by 8 - doubled

end Loop

end Build

def readProp (fdt : List UInt8) (node : Int) (name : Name) : Option (Option (List UInt8)) := do
  match ← fdtGetprop fdt node (nameBytes name) with
  | .error _ => return none
  | .ok (p, len) => return some (← load fdt p len.toNat)

mutual

/-- The readers find the node at the offset: its name, each property that is asked for, and its
children, one after the other. -/
def Reads (fdt : List UInt8) (offset : Int) (name : Name) : Node → Prop
  | .mk props children =>
      fdtGetName fdt offset = some (.ok (nameBytes name)) ∧
      (∀ wanted, CString wanted → readProp fdt offset wanted = some (props.lookup wanted)) ∧
      ∃ first, fdtFirstSubnode fdt offset = some first ∧ ReadsAll fdt first children

def ReadsAll (fdt : List UInt8) (offset : Int) : List (Name × Node) → Prop
  | [] => offset < 0
  | (name, node) :: rest =>
      0 ≤ offset ∧ Reads fdt offset name node ∧
        ∃ next, fdtNextSubnode fdt offset = some next ∧ ReadsAll fdt next rest

end

section Read

variable {fdt : List UInt8} {offset : Int} {name : Name}

theorem Stands.readProp {node : Node} (stands : Stands fdt offset name node) {wanted : Name} (string : CString wanted) :
    Fdt.readProp fdt offset wanted = some (node.props.lookup wanted) := by
  cases present : node.props.lookup wanted with
  | none =>
      rw [Fdt.readProp, stands.getprop_none string present]
      rfl
  | some val =>
      obtain ⟨p, tag, found, loaded⟩ := stands.getprop_some string present
      rw [pad, List.append_assoc] at loaded
      have value := (load_append loaded).1
      rw [Fdt.readProp, found]
      simp only [Option.bind_eq_bind, Option.bind_some, Int.toNat_natCast, value]
      rfl

mutual

theorem Stands.reads : (node : Node) → {offset : Int} → {name : Name} → Stands fdt offset name node →
    Reads fdt offset name node
  | .mk props children, _, _, stands => by
      obtain ⟨first, found, siblings⟩ := stands.firstSubnode
      exact ⟨stands.getName, fun _ string => stands.readProp string, first, found, Siblings.reads children siblings⟩

theorem Siblings.reads : (children : List (Name × Node)) → {offset : Int} → Siblings fdt offset children →
    ReadsAll fdt offset children
  | [], _, done => done
  | (_, node) :: rest, _, ⟨inside, stands, next, found, siblings⟩ =>
      ⟨inside, Stands.reads node stands, next, found, Siblings.reads rest siblings⟩

end

end Read

theorem fdtutilBuild_built {e : Emission} (writable : ∀ token ∈ e.calls, ValidToken token ∧ ShortName token)
    (apart : e.ret ≠ -FDT_ERR_NOSPACE) (memory : BuildMemory) :
    ∃ r, fdtutilBuild memory e = some r ∧ Built memory e r :=
  buildLoop_built writable apart ⟨Nat.zero_le 8, by simp⟩ (by simp)

/-- Whatever tree is written, the blob is returned exactly if it takes no more than 4 MiB and the
memory is granted: each buffer that is asked for, 16 KiB doubled as long as the tree does not fit, and
each copy of cells on the way. The blob is accepted, and the readers find the tree in it. -/
theorem fdtutilBuild_reads (tree : Node) (writable : Writable tree) (memory : BuildMemory) :
    ∃ r, fdtutilBuild memory (treeEmission tree) = some r ∧
      match r with
      | .ok fdt =>
          neededSize tree ≤ 4 * 1024 * 1024 ∧
          (∀ doubled, (treeEmission tree).Asked doubled → memory.buffer (attemptSize doubled) = true ∧
            ¬ (treeEmission tree).GaveUp (memory.cells doubled) (attemptSize doubled)) ∧
          fdt.length = neededSize tree - 8 ∧ fdtutilCheck fdt = 0 ∧ Reads fdt 0 [] tree
      | .error errno =>
          errno = -ENOMEM ∧ (∃ doubled, (treeEmission tree).Asked doubled ∧
            memory.buffer (attemptSize doubled) = false) ∨
          errno = -EINVAL ∧ (∃ doubled, (treeEmission tree).Asked doubled ∧
            (treeEmission tree).GaveUp (memory.cells doubled) (attemptSize doubled)) ∨
          errno = -ENOSPC ∧ 4 * 1024 * 1024 < neededSize tree := by
  have noErrno : (0 : Int) ≠ -FDT_ERR_NOSPACE := by decide
  obtain ⟨r, built, outcome⟩ :=
    fdtutilBuild_built (e := treeEmission tree) writable noErrno memory
  refine ⟨r, built, ?_⟩
  cases outcome with
  | blob done flat length fits buffers kept =>
      exact ⟨fits, fun doubled asked => ⟨buffers doubled asked, kept doubled asked⟩, length, flat.accepted,
        Stands.reads tree (Flat.stands flat)⟩
  | refused asked refused => exact .inl ⟨rfl, _, asked, refused⟩
  | gaveUp asked gaveUp => exact .inr (.inl ⟨rfl, _, asked, gaveUp⟩)
  | failed failed => exact absurd rfl failed
  | large large => exact .inr (.inr ⟨rfl, large⟩)

def samplePool : Node :=
  .mk [] [("resources".toList,
    .mk [("cpus-available".toList, encode 8 2 ++ encode 8 3)]
      [("memory@40000000".toList, .mk [("reg".toList, encode 8 0x40000000 ++ encode 8 0x10000000)] [])])]

theorem samplePool_writable : Writable samplePool := by
  intro token member
  simp only [samplePool, Node.tokens, Node.forest, List.map_cons, List.map_nil, List.cons_append, List.nil_append,
    List.append_nil, List.mem_cons, List.not_mem_nil, or_false] at member
  rcases member with rfl | rfl | rfl | rfl | rfl | rfl | rfl | rfl <;> simp only [ValidToken, ShortName] <;> decide

theorem fdtutilBuild_reads_samplePool :
    Writable samplePool ∧ ∃ fdt, fdtutilBuild .all (treeEmission samplePool) = some (.ok fdt) ∧
      fdtutilCheck fdt = 0 ∧ Reads fdt 0 [] samplePool := by
  obtain ⟨r, built, outcome⟩ := fdtutilBuild_reads samplePool samplePool_writable .all
  cases r with
  | ok fdt =>
      obtain ⟨-, -, -, accepted, reads⟩ := outcome
      exact ⟨samplePool_writable, fdt, built, accepted, reads⟩
  | error errno =>
      rcases outcome with ⟨-, doubled, -, refused⟩ | ⟨-, doubled, -, call, -, refused, -⟩ | ⟨-, large⟩
      · cases refused
      · cases refused
      · exact absurd large (by decide +kernel)

end Kmorph.Fdt
