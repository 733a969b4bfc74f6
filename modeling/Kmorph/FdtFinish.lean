import Kmorph.FdtWriter

/-!
The start and the end of writing a tree: `fdt_create`, `fdt_finish` and `fdt_pack`,
and the attempts of `fdtutil_build`.
-/

namespace Kmorph.Fdt

open BigEndian Brackets Extents

theorem headerBytes_zero : headerBytes (fun _ => 0) = zeros 40 := by decide

def createdHeader (size : ℕ) : HeaderField → ℕ
  | .magic => FDT_SW_MAGIC
  | .totalsize => size
  | .offDtStruct | .offMemRsvmap => 48
  | .version => FDT_LAST_SUPPORTED_VERSION
  | .offDtStrings | .lastCompVersion | .bootCpuidPhys | .sizeDtStrings | .sizeDtStruct => 0

theorem fdtCreate_created {size : ℕ} (room : 48 ≤ size) :
    fdtCreate size = .ok (headerBytes (createdHeader size) ++ zeros (size - 40)) := by
  have blank : List.replicate size 0 = headerBytes (fun _ => 0) ++ zeros (size - 40) := by
    rw [headerBytes_zero, zeros_append]
    exact congrArg zeros (by omega)
  have aligned : fdtAlign FDT_HEADER_SIZE FDT_RESERVE_ENTRY_SIZE = 48 := by decide
  simp only [fdtCreate, aligned]
  rw [if_neg (by omega), blank]
  simp only [fdtSetHeader_headerBytes]
  rw [fdtHeader_headerBytes (by simp)]
  congr 3
  funext f
  cases f <;> simp [Function.update, createdHeader]

theorem fdtFinishReservemap_created {size : ℕ} (small : size ≤ INT_MAX) (room : 64 ≤ size) :
    fdtFinishReservemap (headerBytes (createdHeader size) ++ zeros (size - 40)) = .ok (swBuffer size [] []) := by
  have fits (f : HeaderField) : createdHeader size f < 2 ^ 32 := by
    simp only [INT_MAX] at small
    cases f <;> simp only [createdHeader, FDT_SW_MAGIC, FDT_MAGIC, FDT_LAST_SUPPORTED_VERSION] <;> omega
  have unfinished : FDT_SW_MAGIC ≠ FDT_MAGIC := by decide
  have entry : encode 8 0 = zeros 8 := by decide
  have parts : zeros (size - 40) = zeros 8 ++ (zeros 8 ++ (zeros 8 ++ zeros (size - 64))) := by
    simp only [zeros_append]
    congr 1
    omega
  have probed : fdtSwProbeMemrsv (headerBytes (createdHeader size) ++ zeros (size - 40)) = 0 := by
    simp only [fdtSwProbeMemrsv, fdtSwProbe, fdtHeader_headerBytes (fits _), createdHeader, if_neg unfinished, ne_eq,
      not_true_eq_false, if_false]
  have address := fun h => @writeAt_middle _ 0 (zeros 8) 48 (headerBytes h ++ zeros 8) (zeros 8)
    (zeros 8 ++ zeros (size - 64)) (by simp) rfl
  have length := fun h => @writeAt_middle _ 0 (zeros 8) 56 (headerBytes h ++ (zeros 8 ++ zeros 8)) (zeros 8)
    (zeros (size - 64)) (by simp) rfl
  simp only [List.append_assoc] at address length
  rw [fdtFinishReservemap, fdtAddReservemapEntry, if_neg (by rw [probed]; simp)]
  simp only [fdtHeader_headerBytes (fits _), createdHeader, FDT_RESERVE_ENTRY_SIZE]
  rw [if_neg (by omega), parts, entry, address, length, fdtSetHeader_headerBytes]
  refine (congrArg Except.ok (fdtSetHeader_headerBytes _)).trans ?_
  have total : Function.update (createdHeader size) .offDtStruct 64 .totalsize = size := by
    simp [Function.update, createdHeader]
  rw [fdtHeader_headerBytes (by rw [total]; simp only [INT_MAX] at small; omega), total]
  have header : Function.update (Function.update (createdHeader size) .offDtStruct 64) .offDtStrings size =
      swHeader size 0 0 := by
    funext f
    cases f <;> simp [Function.update, createdHeader, swHeader]
  rw [header, swBuffer]
  simp only [zeros_append, List.append_nil, List.nil_append, List.length_nil]
  rw [show 8 + (8 + (8 + (size - 64))) = 24 + (size - (64 + 0 + 0)) by omega]

/-- A blob by its parts: the header, zeros, the structure and what follows it. -/
def blob (h : HeaderField → ℕ) (gap : ℕ) (struct rest : List UInt8) : List UInt8 :=
  headerBytes h ++ (zeros gap ++ (struct ++ rest))

/-- The header of a blob describes its parts. -/
structure Describes (h : HeaderField → ℕ) (gap : ℕ) (struct rest : List UInt8) : Prop where
  fits : ∀ f, h f < 2 ^ 32
  version : 0x11 ≤ h .version
  start : h .offDtStruct = 40 + gap
  size : h .sizeDtStruct = struct.length
  inside : 40 + gap + struct.length ≤ h .totalsize
  total : h .totalsize ≤ 40 + gap + struct.length + rest.length
  small : h .totalsize ≤ INT_MAX

section Blobs

variable {h : HeaderField → ℕ} {gap : ℕ} {struct rest table : List UInt8} {tokens : List FdtToken}

theorem length_blob (h : HeaderField → ℕ) (gap : ℕ) (struct rest : List UInt8) :
    (blob h gap struct rest).length = 40 + gap + struct.length + rest.length := by
  simp only [blob, List.length_append, length_headerBytes, length_zeros]
  omega

theorem Describes.header (describes : Describes h gap struct rest) (f : HeaderField) :
    fdtHeader (blob h gap struct rest) f = h f :=
  fdtHeader_headerBytes (describes.fits f)

theorem Describes.holds (describes : Describes h gap struct rest) : Holds (blob h gap struct rest) 0 struct where
  struct := fun _ => by rw [describes.header, describes.size, Nat.zero_add]
  stand := by
    have read := @cells_middle _ (40 + gap) struct.length (headerBytes h ++ zeros gap) struct rest (by simp) rfl
    rw [List.append_assoc] at read
    rw [describes.header, describes.start]
    exact read
  inside := by
    have inside := describes.inside
    rw [describes.header, describes.header, describes.start]
    omega
  total := by rw [describes.header, length_blob]; exact describes.total
  small := by rw [describes.header]; exact describes.small

theorem Describes.current (describes : Describes h gap struct rest) :
    0x11 ≤ fdtHeader (blob h gap struct rest) .version := by
  rw [describes.header]
  exact describes.version

theorem Describes.resize {struct' rest' : List UInt8} (describes : Describes h gap struct rest)
    (struct_length : struct'.length = struct.length) (rest_length : rest'.length = rest.length) :
    Describes h gap struct' rest' where
  fits := describes.fits
  version := describes.version
  start := describes.start
  size := describes.size.trans struct_length.symm
  inside := struct_length ▸ describes.inside
  total := by rw [struct_length, rest_length]; exact describes.total
  small := describes.small

theorem cint_swOffset {k : ℕ} (small : k ≤ INT_MAX) : cint (swOffset k) = -k := by
  simp only [INT_MAX] at small
  rw [cint, swOffset, cuint, Int.bmod_def]
  omega

section Fix

variable {done todo post : List UInt8} {steps k : ℕ} {token : FdtToken}

theorem writeAt_blob {before part data : List UInt8} {off : ℕ} (starts : 40 + gap + before.length = off)
    (same : part.length = data.length) :
    writeAt 0 (blob h gap (before ++ (part ++ post)) rest) off data =
      blob h gap (before ++ (data ++ post)) rest := by
  have written := @writeAt_middle _ 0 data off (headerBytes h ++ (zeros gap ++ before)) part (post ++ rest)
    (by simp only [List.length_append, length_headerBytes, length_zeros]; omega) same
  simp only [List.append_assoc] at written
  simp only [blob, List.append_assoc, written]

/-- One token in the loop of `fdt_finish`: the name of a property is counted from the start of the
table. -/
theorem fixNameoffs_token (describes : Describes h gap (done ++ (tokenBytes (swOffset k) token ++ post)) rest)
    (aligned : done.length % 4 = 0) (valid : ValidToken token) (strings : h .sizeDtStrings = table.length)
    (short : table.length ≤ INT_MAX) (named : ∀ prop, token = .item prop → Named table prop.1 k) :
    fixNameoffs (steps + 1) (blob h gap (done ++ (tokenBytes (swOffset k) token ++ post)) rest) done.length =
      fixNameoffs steps (blob h gap (done ++ (tokenBytes (table.length - k) token ++ post)) rest)
        ((done ++ tokenBytes (table.length - k) token).length : Int) := by
  have placed := placed_token describes.current aligned valid describes.holds.middle
  have end_ : ((done ++ tokenBytes (table.length - k) token).length : Int) =
      ((done.length + tokenSize token : ℕ) : Int) := by
    simp
  rw [fixNameoffs, placed.nextTag, ← tokenBytes, length_tokenBytes, end_]
  cases token with
  | enter name => rfl
  | leave => rfl
  | item prop =>
      have within := (named prop rfl).1
      have range : swOffset k < 256 ^ 4 := by
        rw [swOffset, cuint]
        omega
      have split (n : ℕ) : done ++ (tokenBytes n (.item prop) ++ post) =
          (done ++ (encode 4 FdtTag.prop.word ++ encode 4 prop.2.length)) ++ (encode 4 n ++ (pad prop.2 ++ post)) := by
        simp [tokenBytes, tokenPiece, Piece.bytes, Piece.tag, Piece.body]
      have offset : 40 + gap + done.length + 8 = 40 + gap +
          (done ++ (encode 4 FdtTag.prop.word ++ encode 4 prop.2.length)).length := by
        simp only [List.length_append, length_encode]
        omega
      have moved : cuint (-(k : Int) + table.length) = table.length - k := by
        simp only [INT_MAX] at short
        rw [cuint]
        omega
      rw [split] at describes ⊢
      have stored := describes.holds.middle.load32 range
      rw [describes.header, describes.start, ← offset] at stored
      simp only [tokenPiece, Piece.tag, Option.bind_eq_bind, Option.bind_some, describes.header, describes.start,
        Int.toNat_natCast, stored, cint_swOffset (within.trans short), strings, moved]
      rw [writeAt_blob offset.symm (by simp), split]

/-- The loop of `fdt_finish` over the rest of the structure. -/
theorem fixNameoffs_run (encodes : Encodes table swOffset tokens todo)
    (valid : ∀ token ∈ tokens, ValidToken token) (aligned : done.length % 4 = 0) (enough : tokens.length < steps)
    (describes : Describes h gap (done ++ (todo ++ encode 4 FdtTag.stop.word)) rest)
    (strings : h .sizeDtStrings = table.length) (short : table.length ≤ INT_MAX) :
    ∃ fixed, Encodes table (fun k => table.length - k) tokens fixed ∧
      fixNameoffs steps (blob h gap (done ++ (todo ++ encode 4 FdtTag.stop.word)) rest) done.length =
        some (.ok (blob h gap (done ++ (fixed ++ encode 4 FdtTag.stop.word)) rest)) := by
  induction encodes generalizing done steps with
  | nil =>
      obtain ⟨steps, rfl⟩ := Nat.exists_eq_succ_of_ne_zero (Nat.ne_of_gt enough)
      have holds := describes.holds.right
      rw [Nat.zero_add, List.nil_append] at holds
      refine ⟨[], .nil, ?_⟩
      rw [fixNameoffs, List.nil_append, (placed_stop aligned holds).nextTag]
      simp only [Piece.tag, Option.bind_eq_bind, Option.bind_some, Option.pure_def]
      rw [if_neg (by omega)]
  | @cons token tokens todo k named _ ih =>
      obtain ⟨steps, rfl⟩ := Nat.exists_eq_succ_of_ne_zero (Nat.ne_of_gt (Nat.zero_lt_of_lt enough))
      rw [List.append_assoc] at describes ⊢
      have step := @fixNameoffs_token _ _ _ _ _ _ steps _ _ describes aligned (valid token (by simp)) strings short named
      have width := tokenSize_mod token
      have shape : done ++ (tokenBytes (table.length - k) token ++ (todo ++ encode 4 FdtTag.stop.word)) =
          (done ++ tokenBytes (table.length - k) token) ++ (todo ++ encode 4 FdtTag.stop.word) := by
        rw [List.append_assoc]
      obtain ⟨fixed, encodes, run⟩ := @ih (done ++ tokenBytes (table.length - k) token) steps
        (fun token member => valid token (by simp [member]))
        (by rw [List.length_append, length_tokenBytes]; omega)
        (by rw [List.length_cons] at enough; omega)
        (describes.resize (by simp) rfl)
      refine ⟨_, .cons k named encodes, ?_⟩
      rw [step, shape, run]
      simp only [List.append_assoc]

end Fix

/-- The header of a finished tree with its blocks at these offsets. -/
def treeHeader (total struct strings rsvmap structSize stringsSize : ℕ) : HeaderField → ℕ
  | .magic => FDT_MAGIC
  | .totalsize => total
  | .offDtStruct => struct
  | .offDtStrings => strings
  | .offMemRsvmap => rsvmap
  | .version => FDT_LAST_SUPPORTED_VERSION
  | .lastCompVersion => FDT_LAST_COMPATIBLE_VERSION
  | .bootCpuidPhys => 0
  | .sizeDtStrings => stringsSize
  | .sizeDtStruct => structSize

/-- Before the tree is packed. -/
def finishedHeader (struct table : ℕ) (f : HeaderField) : ℕ :=
  treeHeader (64 + struct + table) 64 (64 + struct) 48 struct table f

def packedHeader (struct table : ℕ) (f : HeaderField) : ℕ :=
  treeHeader (56 + struct + table) 56 (56 + struct) 40 struct table f

section Updates

variable {total struct strings rsvmap structSize stringsSize : ℕ} (v : ℕ)

theorem treeHeader_totalsize : Function.update (treeHeader total struct strings rsvmap structSize stringsSize)
    .totalsize v = treeHeader v struct strings rsvmap structSize stringsSize := by
  funext f
  cases f <;> simp [Function.update, treeHeader]

theorem treeHeader_offDtStruct : Function.update (treeHeader total struct strings rsvmap structSize stringsSize)
    .offDtStruct v = treeHeader total v strings rsvmap structSize stringsSize := by
  funext f
  cases f <;> simp [Function.update, treeHeader]

theorem treeHeader_offDtStrings : Function.update (treeHeader total struct strings rsvmap structSize stringsSize)
    .offDtStrings v = treeHeader total struct v rsvmap structSize stringsSize := by
  funext f
  cases f <;> simp [Function.update, treeHeader]

theorem treeHeader_offMemRsvmap : Function.update (treeHeader total struct strings rsvmap structSize stringsSize)
    .offMemRsvmap v = treeHeader total struct strings v structSize stringsSize := by
  funext f
  cases f <;> simp [Function.update, treeHeader]

theorem treeHeader_lt (small : total < 2 ^ 32 ∧ struct < 2 ^ 32 ∧ strings < 2 ^ 32 ∧ rsvmap < 2 ^ 32 ∧
    structSize < 2 ^ 32 ∧ stringsSize < 2 ^ 32) (f : HeaderField) :
    treeHeader total struct strings rsvmap structSize stringsSize f < 2 ^ 32 := by
  cases f <;> simp only [treeHeader, FDT_MAGIC, FDT_LAST_SUPPORTED_VERSION, FDT_LAST_COMPATIBLE_VERSION] <;> omega

end Updates

theorem setHeader_blob (h : HeaderField → ℕ) (gap : ℕ) (struct rest : List UInt8) (f : HeaderField) (v : ℕ) :
    fdtSetHeader (blob h gap struct rest) f v = blob (Function.update h f v) gap struct rest :=
  fdtSetHeader_headerBytes v

theorem writeAt_blob_rest {data : List UInt8} {off : ℕ} (starts : 40 + gap + struct.length = off) :
    writeAt 0 (blob h gap struct rest) off data = blob h gap struct (data ++ rest.drop data.length) := by
  have written := @writeAt_append _ 0 data off (headerBytes h ++ (zeros gap ++ struct)) rest
    (by simp only [List.length_append, length_headerBytes, length_zeros]; omega)
  simp only [List.append_assoc] at written
  simp only [blob, written]

/-- The header while the names are counted anew. -/
def relocatedHeader (size struct table : ℕ) : HeaderField → ℕ
  | .offDtStrings => 64 + struct
  | f => swHeader size struct table f

theorem relocated_swHeader (size struct table : ℕ) :
    Function.update (swHeader size struct table) .offDtStrings (64 + struct) = relocatedHeader size struct table := by
  funext f
  cases f <;> simp [Function.update, relocatedHeader, swHeader]

theorem describes_relocated {size table : ℕ} {struct rest : List UInt8} (small : size ≤ INT_MAX)
    (length : 64 + struct.length + rest.length = size) (inside : table ≤ size) :
    Describes (relocatedHeader size struct.length table) 24 struct rest where
  fits f := by
    simp only [INT_MAX] at small
    cases f <;> simp only [relocatedHeader, swHeader, FDT_SW_MAGIC, FDT_MAGIC, FDT_LAST_SUPPORTED_VERSION] <;> omega
  version := Nat.le_refl _
  start := rfl
  size := rfl
  inside := by
    rw [← length]
    exact Nat.le_add_right _ _
  total := Nat.le_of_eq length.symm
  small := small

/-- The table moved to the end of the structure. -/
theorem relocate_swBuffer {size : ℕ} {struct : List UInt8}
    (fits : 64 + struct.length + table.length ≤ size) :
    ∃ junk, 64 + struct.length + (table ++ junk).length = size ∧
      fdtSetHeader (moveWithin (swBuffer size struct table) (64 + struct.length) (size - table.length) table.length)
          .offDtStrings (64 + struct.length) =
        blob (relocatedHeader size struct.length table.length) 24 struct (table ++ junk) := by
  refine ⟨(zeros (size - (64 + struct.length + table.length)) ++ table).drop table.length, ?_, ?_⟩
  · simp
    omega
  · rw [moveWithin, cells_swBuffer fits, swBuffer, ← blob, writeAt_blob_rest rfl, setHeader_blob, relocated_swHeader]

theorem length_le_tokensSize (tokens : List FdtToken) : tokens.length ≤ tokensSize tokens := by
  induction tokens with
  | nil => exact Nat.le_refl _
  | cons token tokens ih =>
      have width : 4 ≤ tokenSize token := by
        cases token <;> simp only [tokenSize] <;> omega
      rw [List.length_cons, tokensSize_cons]
      omega

theorem fdtFinish_swBuffer {size : ℕ} {bytes : List UInt8} (small : size ≤ INT_MAX)
    (fits : 64 + bytes.length + table.length ≤ size) (encodes : Encodes table swOffset tokens bytes)
    (valid : ∀ token ∈ tokens, ValidToken token) :
    if 64 + (bytes.length + 4) + table.length ≤ size then
      ∃ fixed junk, Encodes table (fun k => table.length - k) tokens fixed ∧
        fdtFinish (swBuffer size bytes table) =
          some (.ok (blob (finishedHeader (bytes.length + 4) table.length) 24
            (fixed ++ encode 4 FdtTag.stop.word) (table ++ junk)))
    else fdtFinish (swBuffer size bytes table) = some (.error (-FDT_ERR_NOSPACE)) := by
  have probed : ¬ fdtSwProbeStruct (swBuffer size bytes table) ≠ 0 := by
    rw [fdtSwProbeStruct_swBuffer small fits]
    simp
  have grabbed := fdtGrabSpace_swBuffer small fits FDT_TAGSIZE
  rw [fdtFinish, if_neg probed, grabbed, FDT_TAGSIZE]
  by_cases enough : 64 + (bytes.length + 4) + table.length ≤ size
  · rw [if_pos enough, if_pos enough]
    have longer : (bytes ++ encode 4 FdtTag.stop.word).length = bytes.length + 4 := by simp
    have written := @writeAt_swBuffer size table bytes (zeros 4) [] (encode 4 FdtTag.stop.word) _ rfl (by simp)
    simp only [List.append_nil] at written
    have room : 64 + (bytes ++ encode 4 FdtTag.stop.word).length + table.length ≤ size := by rwa [longer]
    obtain ⟨junk, length, moved⟩ := relocate_swBuffer room
    have describes := @describes_relocated size table.length _ _ small length (by omega)
    have steps : tokens.length < (blob (relocatedHeader size (bytes ++ encode 4 FdtTag.stop.word).length table.length)
        24 (bytes ++ encode 4 FdtTag.stop.word) (table ++ junk)).length + 1 := by
      have := length_le_tokensSize tokens
      have := encodes.length
      rw [length_blob, longer]
      omega
    obtain ⟨fixed, encodes', run⟩ := @fixNameoffs_run _ _ _ _ _ [] _ _ encodes valid rfl steps describes rfl (by omega)
    refine ⟨fixed, junk, encodes', ?_⟩
    have same : (fixed ++ encode 4 FdtTag.stop.word).length = (bytes ++ encode 4 FdtTag.stop.word).length := by
      simp [encodes.length, encodes'.length]
    have header := fun f => (describes.resize same rfl).header f
    rw [List.nil_append, List.nil_append, List.length_nil, Nat.cast_zero] at run
    simp only [written, fdtHeader_swBuffer small room, swHeader]
    rw [moved, run]
    rw [longer] at header ⊢
    simp only [Option.bind_eq_bind, Option.bind_some, Option.pure_def, header, setHeader_blob]
    congr 3
    funext f
    cases f <;> simp [Function.update, relocatedHeader, finishedHeader, treeHeader, swHeader]
  · rw [if_neg enough, if_neg enough]

theorem finishedHeader_lt {struct table : ℕ} (small : 64 + struct + table < INT_MAX) (f : HeaderField) :
    finishedHeader struct table f < 2 ^ 32 := by
  simp only [INT_MAX] at small
  exact treeHeader_lt (by omega) f

theorem fdtRwProbe_finished (small : 64 + struct.length + table.length < INT_MAX) :
    fdtRwProbe (blob (finishedHeader struct.length table.length) 24 struct rest) = 0 := by
  have header (f : HeaderField) : fdtHeader (blob (finishedHeader struct.length table.length) 24 struct rest) f =
      finishedHeader struct.length table.length f := fdtHeader_headerBytes (finishedHeader_lt small f)
  have probed : fdtRoProbe (blob (finishedHeader struct.length table.length) 24 struct rest) =
      (64 + struct.length + table.length : ℕ) := by
    simp only [fdtRoProbe, header, finishedHeader, treeHeader, if_true]
    rw [if_neg (show ¬ FDT_LAST_SUPPORTED_VERSION < FDT_FIRST_SUPPORTED_VERSION by decide),
      if_neg (show ¬ FDT_LAST_COMPATIBLE_VERSION > FDT_LAST_SUPPORTED_VERSION by decide), if_neg (by decide),
      if_pos small]
  have ordered : fdtBlocksMisordered (blob (finishedHeader struct.length table.length) 24 struct rest) = false := by
    simp [fdtBlocksMisordered, header, finishedHeader, treeHeader, fdtAlign, FDT_HEADER_SIZE, FDT_RESERVE_ENTRY_SIZE]
  rw [fdtRwProbe, if_neg (by rw [probed]; omega), 
    if_neg (by rw [header, finishedHeader, treeHeader]; decide), ordered]
  rfl

theorem fdtNumMemRsv_finished (small : 64 + struct.length + table.length < INT_MAX) :
    fdtNumMemRsv (blob (finishedHeader struct.length table.length) 24 struct rest) = 0 := by
  have header (f : HeaderField) : fdtHeader (blob (finishedHeader struct.length table.length) 24 struct rest) f =
      finishedHeader struct.length table.length f := fdtHeader_headerBytes (finishedHeader_lt small f)
  have entry := @cells_middle _ 56 8 (headerBytes (finishedHeader struct.length table.length) ++ zeros 16) (zeros 8)
    (struct ++ rest) (by simp) (by simp)
  have parts : blob (finishedHeader struct.length table.length) 24 struct rest =
      (headerBytes (finishedHeader struct.length table.length) ++ zeros 16) ++ (zeros 8 ++ (struct ++ rest)) := by
    rw [blob, List.append_assoc, ← List.append_assoc (zeros 16), zeros_append]
  have first : fdtMemRsv (blob (finishedHeader struct.length table.length) 24 struct rest) 0 = some 48 := by
    simp only [fdtMemRsv, header, finishedHeader, treeHeader, FDT_RESERVE_ENTRY_SIZE]
    rw [if_neg (by rw [show cuint ((48 : ℕ) + (0 : ℕ) * (16 : ℕ)) = 48 by decide]; omega)]
  rw [fdtNumMemRsv, header, finishedHeader, treeHeader, show 64 + struct.length + table.length =
    (63 + struct.length + table.length) + 1 by omega, numMemRsvFrom, first]
  simp only
  rw [if_pos (by rw [parts, entry]; decide)]
  rfl

/-! The moves of `fdt_pack`. -/

theorem blob_split (h : HeaderField → ℕ) (m n : ℕ) (struct rest : List UInt8) :
    blob h (m + n) struct rest = (headerBytes h ++ zeros m) ++ (zeros n ++ (struct ++ rest)) := by
  rw [blob, List.append_assoc, ← List.append_assoc (zeros m), zeros_append]

theorem moveWithin_rsvmap (h : HeaderField → ℕ) (struct rest : List UInt8) :
    moveWithin (blob h 24 struct rest) 40 48 16 = blob h 24 struct rest := by
  have read : cells (blob h 24 struct rest) 48 16 = zeros 16 := by
    rw [blob_split h 8 16, cells_middle (by simp) (by simp)]
  rw [moveWithin, read, blob_split h 16 8, List.append_assoc, writeAt_middle (by simp) rfl]

theorem moveWithin_struct (h : HeaderField → ℕ) (struct rest : List UInt8) :
    ∃ between : List UInt8, between.length = 8 ∧
      moveWithin (blob h 24 struct rest) 56 64 struct.length = blob h 16 struct (between ++ rest) := by
  have read : cells (blob h 24 struct rest) 64 struct.length = struct := by
    rw [blob, ← List.append_assoc, cells_middle (by simp) rfl]
  refine ⟨(zeros 8 ++ struct).drop struct.length, by simp, ?_⟩
  rw [moveWithin, read, blob_split h 16 8, writeAt_append (by simp), ← List.append_assoc (zeros 8),
    List.drop_append_of_le_length (by simp), blob, List.append_assoc]

theorem moveWithin_strings (h : HeaderField → ℕ) (struct table junk : List UInt8) {between : List UInt8}
    (gap : between.length = 8) :
    ∃ junk', moveWithin (blob h 16 struct (between ++ (table ++ junk))) (56 + struct.length) (64 + struct.length)
      table.length = blob h 16 struct (table ++ junk') := by
  have read := @cells_middle _ (64 + struct.length) table.length
    (headerBytes h ++ (zeros 16 ++ (struct ++ between))) table junk (by simp; omega) rfl
  simp only [List.append_assoc] at read
  refine ⟨(between ++ (table ++ junk)).drop table.length, ?_⟩
  rw [← blob] at read
  rw [moveWithin, writeAt_blob_rest rfl, read]

theorem header_blob {f : HeaderField} (fits : h f < 2 ^ 32) : fdtHeader (blob h gap struct rest) f = h f :=
  fdtHeader_headerBytes fits

theorem fdtPackblocks_finished (small : 64 + struct.length + table.length < INT_MAX) (junk : List UInt8) :
    ∃ junk', fdtPackblocks (blob (finishedHeader struct.length table.length) 24 struct (table ++ junk)) 16
        struct.length table.length =
      blob (treeHeader (64 + struct.length + table.length) 56 (56 + struct.length) 40 struct.length table.length) 16
        struct (table ++ junk') := by
  have header {strings start rsvmap gap : ℕ} {rest : List UInt8} (f : HeaderField)
      (inside : strings ≤ 64 + struct.length ∧ start ≤ 64 ∧ rsvmap ≤ 64) :
      fdtHeader (blob (treeHeader (64 + struct.length + table.length) start strings rsvmap struct.length table.length)
        gap struct rest) f =
        treeHeader (64 + struct.length + table.length) start strings rsvmap struct.length table.length f := by
    simp only [INT_MAX] at small
    exact header_blob (treeHeader_lt (by omega) f)
  have aligned : fdtAlign FDT_HEADER_SIZE 8 = 40 := by decide
  obtain ⟨between, eight, moved⟩ := moveWithin_struct (treeHeader (64 + struct.length + table.length) 64
    (64 + struct.length) 40 struct.length table.length) struct (table ++ junk)
  obtain ⟨junk', packed⟩ := moveWithin_strings (treeHeader (64 + struct.length + table.length) 56
    (64 + struct.length) 40 struct.length table.length) struct table junk eight
  have structSize := fun total strings => Function.update_eq_self HeaderField.sizeDtStruct
    (treeHeader total 56 strings 40 struct.length table.length)
  have stringsSize := fun total strings => Function.update_eq_self HeaderField.sizeDtStrings
    (treeHeader total 56 strings 40 struct.length table.length)
  simp only [treeHeader] at structSize stringsSize
  have before : finishedHeader struct.length table.length = treeHeader (64 + struct.length + table.length) 64
    (64 + struct.length) 48 struct.length table.length := rfl
  refine ⟨junk', ?_⟩
  simp only [fdtPackblocks, aligned, before]
  rw [header .offMemRsvmap (by omega), treeHeader, moveWithin_rsvmap, setHeader_blob, treeHeader_offMemRsvmap,
    header .offDtStruct (by omega), treeHeader, moved, setHeader_blob, treeHeader_offDtStruct, setHeader_blob,
    structSize, header .offDtStrings (by omega), treeHeader, packed, setHeader_blob, treeHeader_offDtStrings,
    header .sizeDtStrings (by omega), treeHeader, setHeader_blob, stringsSize]

/-- The blocks moved together. -/
theorem fdtPack_finished (small : 64 + struct.length + table.length < INT_MAX) (junk : List UInt8) :
    ∃ junk', fdtPack (blob (finishedHeader struct.length table.length) 24 struct (table ++ junk)) =
      some (blob (packedHeader struct.length table.length) 16 struct (table ++ junk')) := by
  obtain ⟨junk', packed⟩ := fdtPackblocks_finished small junk
  have header (f : HeaderField) {rest : List UInt8} : fdtHeader (blob (treeHeader (64 + struct.length + table.length)
      56 (56 + struct.length) 40 struct.length table.length) 16 struct rest) f = treeHeader
        (64 + struct.length + table.length) 56 (56 + struct.length) 40 struct.length table.length f := by
    simp only [INT_MAX] at small
    exact header_blob (treeHeader_lt (by omega) f)
  have sizes (f : HeaderField) {rest : List UInt8} :
      fdtHeader (blob (finishedHeader struct.length table.length) 24 struct rest) f =
        finishedHeader struct.length table.length f := header_blob (finishedHeader_lt small f)
  refine ⟨junk', ?_⟩
  rw [fdtPack, if_neg (by rw [fdtRwProbe_finished small]; simp), if_neg (by rw [fdtNumMemRsv_finished small]; simp),
    fdtNumMemRsv_finished small, sizes, sizes]
  simp only [finishedHeader, treeHeader, FDT_RESERVE_ENTRY_SIZE, Int.toNat_zero, Nat.zero_add, Nat.one_mul]
  rw [packed, header, header, setHeader_blob, treeHeader_totalsize]
  rfl

end Blobs

end Kmorph.Fdt
