import Kmorph.FdtLayout
import Mathlib.Logic.Function.Basic

/-!
The sequential writer. Its buffer holds the header, the structure so far, zeros, and
at its end the names that the properties so far have; a call succeeds where the
structure and the names it leaves still fit.
-/

namespace Kmorph.Fdt

open BigEndian Brackets Extents

/-! Headers. -/

def headerBytes (h : HeaderField → ℕ) : List UInt8 := HeaderField.all.flatMap fun f => encode 4 (h f)

section Headers

variable {h : HeaderField → ℕ} {f : HeaderField} {body : List UInt8}

@[simp] theorem length_headerBytes (h : HeaderField → ℕ) : (headerBytes h).length = 40 := by
  simp [headerBytes, HeaderField.all]

theorem all_split (f : HeaderField) :
    ∃ before after, HeaderField.all = before ++ f :: after ∧ f ∉ before ∧ f ∉ after ∧
      4 * before.length = f.offset := by
  refine ⟨HeaderField.all.take (HeaderField.all.idxOf f), HeaderField.all.drop (HeaderField.all.idxOf f + 1), ?_⟩
  cases f <;> decide

theorem headerBytes_split (h : HeaderField → ℕ) (f : HeaderField) :
    ∃ before after : List UInt8, before.length = f.offset ∧ headerBytes h = before ++ (encode 4 (h f) ++ after) ∧
      ∀ v, headerBytes (Function.update h f v) = before ++ (encode 4 v ++ after) := by
  obtain ⟨before, after, split, notBefore, notAfter, offset⟩ := all_split f
  have kept (fields : List HeaderField) (other : f ∉ fields) (v : ℕ) :
      (fields.flatMap fun g => encode 4 (Function.update h f v g)) = fields.flatMap fun g => encode 4 (h g) := by
    apply List.flatMap_congr
    intro g member
    rw [Function.update_of_ne]
    rintro rfl
    exact other member
  refine ⟨before.flatMap fun g => encode 4 (h g), after.flatMap fun g => encode 4 (h g), ?_, ?_, ?_⟩
  · rw [← offset]
    simp [List.length_flatMap, Nat.mul_comm]
  · rw [headerBytes, split, List.flatMap_append, List.flatMap_cons]
  · intro v
    rw [headerBytes, split, List.flatMap_append, List.flatMap_cons, kept before notBefore, kept after notAfter,
      Function.update_self]

theorem fdtHeader_headerBytes (fits : h f < 2 ^ 32) : fdtHeader (headerBytes h ++ body) f = h f := by
  obtain ⟨before, after, offset, split, -⟩ := headerBytes_split h f
  rw [fdtHeader, split, List.append_assoc, List.append_assoc, cells_middle offset (length_encode 4 _),
    decode_encode_of_lt fits]

theorem fdtSetHeader_headerBytes (v : ℕ) :
    fdtSetHeader (headerBytes h ++ body) f v = headerBytes (Function.update h f v) ++ body := by
  obtain ⟨before, after, offset, split, updated⟩ := headerBytes_split h f
  rw [fdtSetHeader, split, List.append_assoc, List.append_assoc, writeAt_middle offset (by simp), updated,
    List.append_assoc, List.append_assoc]

end Headers

/-! The buffer of a tree that is being written. -/

def swHeader (size struct table : ℕ) : HeaderField → ℕ
  | .magic => FDT_SW_MAGIC
  | .totalsize => size
  | .offDtStruct => 64
  | .offDtStrings => size
  | .offMemRsvmap => 48
  | .version => FDT_LAST_SUPPORTED_VERSION
  | .lastCompVersion => 0
  | .bootCpuidPhys => 0
  | .sizeDtStrings => table
  | .sizeDtStruct => struct

theorem swHeader_struct (size struct table struct' : ℕ) :
    Function.update (swHeader size struct table) .sizeDtStruct struct' = swHeader size struct' table := by
  funext f
  cases f <;> simp [Function.update, swHeader]

theorem swHeader_table (size struct table table' : ℕ) :
    Function.update (swHeader size struct table) .sizeDtStrings table' = swHeader size struct table' := by
  funext f
  cases f <;> simp [Function.update, swHeader]

def zeros (n : ℕ) : List UInt8 := List.replicate n 0

@[simp] theorem length_zeros (n : ℕ) : (zeros n).length = n := List.length_replicate

theorem zeros_append (m n : ℕ) : zeros m ++ zeros n = zeros (m + n) := List.replicate_append_replicate

def swBuffer (size : ℕ) (bytes table : List UInt8) : List UInt8 :=
  headerBytes (swHeader size bytes.length table.length) ++
    (zeros 24 ++ (bytes ++ (zeros (size - (64 + bytes.length + table.length)) ++ table)))

section Buffers

variable {size len : ℕ} {bytes table : List UInt8} {f : HeaderField}

theorem swHeader_lt (small : size ≤ INT_MAX) (fits : 64 + bytes.length + table.length ≤ size) (f : HeaderField) :
    swHeader size bytes.length table.length f < 2 ^ 32 := by
  simp only [INT_MAX] at small
  cases f <;> simp only [swHeader, FDT_SW_MAGIC, FDT_MAGIC, FDT_LAST_SUPPORTED_VERSION] <;> omega

theorem fdtHeader_swBuffer (small : size ≤ INT_MAX) (fits : 64 + bytes.length + table.length ≤ size) :
    fdtHeader (swBuffer size bytes table) f = swHeader size bytes.length table.length f :=
  fdtHeader_headerBytes (swHeader_lt small fits f)

theorem fdtSwProbeStruct_swBuffer (small : size ≤ INT_MAX) (fits : 64 + bytes.length + table.length ≤ size) :
    fdtSwProbeStruct (swBuffer size bytes table) = 0 := by
  have unfinished : FDT_SW_MAGIC ≠ FDT_MAGIC := by decide
  simp only [fdtSwProbeStruct, fdtSwProbe, fdtHeader_swBuffer small fits, swHeader, if_neg unfinished, ne_eq,
    not_true_eq_false, if_false]

/-- Space is taken from the zeros. -/
theorem fdtGrabSpace_swBuffer (small : size ≤ INT_MAX) (fits : 64 + bytes.length + table.length ≤ size) (len : ℕ) :
    fdtGrabSpace (swBuffer size bytes table) len =
      if 64 + (bytes.length + len) + table.length ≤ size then
        some (swBuffer size (bytes ++ zeros len) table, 64 + bytes.length)
      else none := by
  have space : cuint ((size : Int) - (64 : ℕ) - table.length) = size - 64 - table.length := by
    rw [cuint]
    simp only [INT_MAX] at small
    omega
  simp only [fdtGrabSpace, fdtHeader_swBuffer small fits, swHeader, space]
  by_cases room : 64 + (bytes.length + len) + table.length ≤ size
  · have gap : zeros (size - (64 + bytes.length + table.length)) =
        zeros len ++ zeros (size - (64 + (bytes.length + len) + table.length)) := by
      rw [zeros_append]
      congr 1
      omega
    rw [if_neg (by omega), if_pos room, swBuffer, fdtSetHeader_headerBytes, swHeader_struct, gap, swBuffer,
      List.length_append, length_zeros, List.append_assoc, List.append_assoc]
  · rw [if_pos (by omega), if_neg room]

/-- A write into the structure. -/
theorem writeAt_swBuffer {before part after data : List UInt8} {off : ℕ} (starts : 64 + before.length = off)
    (same : part.length = data.length) :
    writeAt 0 (swBuffer size (before ++ (part ++ after)) table) off data =
      swBuffer size (before ++ (data ++ after)) table := by
  have front (h : HeaderField → ℕ) : (headerBytes h ++ (zeros 24 ++ before)).length = off := by
    simp only [List.length_append, length_headerBytes, length_zeros]
    omega
  have length : (before ++ (part ++ after)).length = (before ++ (data ++ after)).length := by
    simp only [List.length_append, same]
  have written := fun h rest => @writeAt_middle _ 0 data off (headerBytes h ++ (zeros 24 ++ before)) part
    (after ++ rest) (front h) same
  simp only [List.append_assoc] at written
  simp only [swBuffer, List.append_assoc, written, length]

theorem pad_zeros (bytes : List UInt8) : pad bytes = bytes ++ zeros (fdtTagalign bytes.length - bytes.length) := rfl

theorem fdtBeginNode_swBuffer (small : size ≤ INT_MAX) (fits : 64 + bytes.length + table.length ≤ size)
    (name : Name) (nameoff : ℕ) :
    fdtBeginNode (nameBytes name) (swBuffer size bytes table) =
      if 64 + (bytes.length + tokenSize (.enter name)) + table.length ≤ size then
        .ok (swBuffer size (bytes ++ tokenBytes nameoff (.enter name)) table)
      else .error (-FDT_ERR_NOSPACE) := by
  have room := le_fdtTagalign (name.length + 1)
  have parts : zeros (4 + fdtTagalign (name.length + 1)) =
      zeros 4 ++ (zeros (name.length + 1) ++ zeros (fdtTagalign (name.length + 1) - (name.length + 1))) := by
    rw [zeros_append, zeros_append]
    congr 1
    omega
  rw [fdtBeginNode, if_neg (by rw [fdtSwProbeStruct_swBuffer small fits]; simp), length_nameBytes, FDT_TAGSIZE,
    fdtGrabSpace_swBuffer small fits, tokenSize]
  by_cases enough : 64 + (bytes.length + (4 + fdtTagalign (name.length + 1))) + table.length ≤ size
  · rw [if_pos enough, if_pos enough, parts]
    simp only
    rw [writeAt_swBuffer rfl (by simp), ← List.append_assoc, writeAt_swBuffer (by simp; omega) (by simp)]
    simp [tokenBytes, tokenPiece, Piece.bytes, Piece.tag, Piece.body, pad_zeros]
  · rw [if_neg enough, if_neg enough]

theorem fdtEndNode_swBuffer (small : size ≤ INT_MAX) (fits : 64 + bytes.length + table.length ≤ size) (nameoff : ℕ) :
    fdtEndNode (swBuffer size bytes table) =
      if 64 + (bytes.length + tokenSize .leave) + table.length ≤ size then
        .ok (swBuffer size (bytes ++ tokenBytes nameoff .leave) table)
      else .error (-FDT_ERR_NOSPACE) := by
  have written := @writeAt_swBuffer size table bytes (zeros 4) [] (encode 4 FdtTag.endNode.word) _ rfl (by simp)
  simp only [List.append_nil] at written
  rw [fdtEndNode, if_neg (by rw [fdtSwProbeStruct_swBuffer small fits]; simp), FDT_TAGSIZE,
    fdtGrabSpace_swBuffer small fits, tokenSize]
  by_cases enough : 64 + (bytes.length + 4) + table.length ≤ size
  · rw [if_pos enough, if_pos enough]
    simp only [written, tokenBytes, tokenPiece, Piece.bytes, Piece.tag, Piece.body, List.append_nil]
  · rw [if_neg enough, if_neg enough]

/-! Names are looked up in the table first. -/

def intern (table : List UInt8) (name : Name) : List UInt8 :=
  if (fdtFindString table (nameBytes name)).isSome then table else nameBytes name ++ 0 :: table

/-- The offset of a name before the tree is finished. -/
def swOffset (k : ℕ) : ℕ := cuint (-k)

theorem named_of_find {name : Name} {p : ℕ} (found : fdtFindString table (nameBytes name) = some p) :
    p < table.length ∧ Named table name (table.length - p) := by
  have stands := List.find?_some found
  have inside := List.mem_range.mp (List.mem_of_find?_eq_some found)
  rw [decide_eq_true_eq] at stands
  refine ⟨by omega, by omega, ?_⟩
  rw [← stands, cells, show table.length - (table.length - p) = p by omega]
  exact List.take_prefix _ _

theorem fdtAddString_swBuffer (small : size ≤ INT_MAX) (fits : 64 + bytes.length + table.length ≤ size)
    {string : List UInt8} (short : string.length < 64) :
    fdtAddString (swBuffer size bytes table) string =
      if 64 + bytes.length + (string ++ 0 :: table).length ≤ size then
        (-((string ++ 0 :: table).length : Int), swBuffer size bytes (string ++ 0 :: table))
      else (0, swBuffer size bytes table) := by
  have offset : cuint ((size : Int) - (table.length + (string.length + 1) : ℕ)) =
      size - (table.length + (string.length + 1)) := by
    rw [cuint]
    simp only [INT_MAX] at small
    omega
  have length : (string ++ 0 :: table).length = table.length + (string.length + 1) := by
    simp only [List.length_append, List.length_cons]
    omega
  simp only [fdtAddString, fdtHeader_swBuffer small fits, swHeader, offset, length]
  by_cases enough : 64 + bytes.length + (table.length + (string.length + 1)) ≤ size
  · have gap : zeros (size - (64 + bytes.length + table.length)) =
        zeros (size - (64 + bytes.length + (table.length + (string.length + 1)))) ++ zeros (string.length + 1) := by
      rw [zeros_append]
      congr 1
      omega
    have written := fun h => @writeAt_middle _ 0 (string ++ [0]) (size - (table.length + (string.length + 1)))
      (headerBytes h ++ (zeros 24 ++ (bytes ++
        zeros (size - (64 + bytes.length + (table.length + (string.length + 1))))))) (zeros (string.length + 1))
      table (by simp; omega) (by simp)
    simp only [List.append_assoc, List.singleton_append] at written
    rw [if_neg (by omega), if_pos enough]
    simp only [swBuffer, gap, List.append_assoc, written, fdtSetHeader_headerBytes, swHeader_table, length]
  · rw [if_pos (by omega), if_neg enough]

theorem cells_swBuffer (fits : 64 + bytes.length + table.length ≤ size) :
    cells (swBuffer size bytes table) (size - table.length) table.length = table := by
  have read := fun h => @cells_middle _ (size - table.length) table.length
    (headerBytes h ++ (zeros 24 ++ (bytes ++ zeros (size - (64 + bytes.length + table.length))))) table []
    (by simp; omega) rfl
  simp only [List.append_assoc, List.append_nil] at read
  rw [swBuffer, read]

theorem fdtFindAddString_swBuffer (small : size ≤ INT_MAX) (fits : 64 + bytes.length + table.length ≤ size)
    {name : Name} (short : name.length < 64) :
    if 64 + bytes.length + (intern table name).length ≤ size then
      ∃ k, 0 < k ∧ Named (intern table name) name k ∧
        fdtFindAddString (swBuffer size bytes table) (nameBytes name) =
          (-(k : Int), swBuffer size bytes (intern table name))
    else (fdtFindAddString (swBuffer size bytes table) (nameBytes name)).1 = 0 := by
  rw [intern]
  simp only [fdtFindAddString, fdtHeader_swBuffer small fits, swHeader, cells_swBuffer fits]
  cases found : fdtFindString table (nameBytes name) with
  | some p =>
      obtain ⟨inside, named⟩ := named_of_find found
      simp only [Option.isSome_some, if_true]
      rw [if_pos fits]
      refine ⟨table.length - p, by omega, named, ?_⟩
      simp only [Prod.mk.injEq, and_true]
      omega
  | none =>
      have added := fdtAddString_swBuffer small fits ((length_nameBytes name).symm ▸ short)
      simp only [Option.isSome_none, Bool.false_eq_true, if_false]
      rw [added]
      by_cases enough : 64 + bytes.length + (nameBytes name ++ 0 :: table).length ≤ size
      · rw [if_pos enough]
        refine ⟨_, by simp, ⟨Nat.le_refl _, ?_⟩, if_pos enough⟩
        rw [Nat.sub_self, List.drop_zero]
        exact ⟨table, by simp⟩
      · rw [if_neg enough, if_neg enough]

/-- The tag, the name, the length and the value of a property, in the order they are written. -/
theorem writeAt_property (size nameoff : ℕ) (bytes table : List UInt8) (prop : Name × List UInt8) :
    writeAt 0 (writeAt 0 (writeAt 0 (writeAt 0
      (swBuffer size (bytes ++ zeros (12 + fdtTagalign prop.2.length)) table)
      (64 + bytes.length) (encode 4 FdtTag.prop.word))
      (64 + bytes.length + 8) (encode 4 nameoff))
      (64 + bytes.length + 4) (encode 4 prop.2.length))
      (64 + bytes.length + 12) prop.2 =
    swBuffer size (bytes ++ tokenBytes nameoff (.item prop)) table := by
  have room := le_fdtTagalign prop.2.length
  have parts : zeros (12 + fdtTagalign prop.2.length) =
      zeros 4 ++ (zeros 4 ++ (zeros 4 ++ (zeros prop.2.length ++ zeros (fdtTagalign prop.2.length - prop.2.length)))) := by
    simp only [zeros_append]
    congr 1
    omega
  have tag := @writeAt_swBuffer size table bytes (zeros 4) (zeros 4 ++ (zeros 4 ++ (zeros prop.2.length ++
    zeros (fdtTagalign prop.2.length - prop.2.length)))) (encode 4 FdtTag.prop.word) _ rfl (by simp)
  have name := @writeAt_swBuffer size table (bytes ++ (encode 4 FdtTag.prop.word ++ zeros 4)) (zeros 4)
    (zeros prop.2.length ++ zeros (fdtTagalign prop.2.length - prop.2.length)) (encode 4 nameoff)
    (64 + bytes.length + 8) (by simp; omega) (by simp)
  have length := @writeAt_swBuffer size table (bytes ++ encode 4 FdtTag.prop.word) (zeros 4)
    (encode 4 nameoff ++ (zeros prop.2.length ++ zeros (fdtTagalign prop.2.length - prop.2.length)))
    (encode 4 prop.2.length) (64 + bytes.length + 4) (by simp; omega) (by simp)
  have value := @writeAt_swBuffer size table
    (bytes ++ (encode 4 FdtTag.prop.word ++ (encode 4 prop.2.length ++ encode 4 nameoff))) (zeros prop.2.length)
    (zeros (fdtTagalign prop.2.length - prop.2.length)) prop.2 (64 + bytes.length + 12) (by simp; omega) (by simp)
  simp only [List.append_assoc] at name length value
  rw [parts, tag, name, length, value]
  simp [tokenBytes, tokenPiece, Piece.bytes, Piece.tag, Piece.body, pad_zeros]

theorem fdtProperty_swBuffer (small : size ≤ INT_MAX) (fits : 64 + bytes.length + table.length ≤ size)
    (prop : Name × List UInt8) (short : prop.1.length < 64) :
    if 64 + (bytes.length + tokenSize (.item prop)) + (intern table prop.1).length ≤ size then
      ∃ k, Named (intern table prop.1) prop.1 k ∧
        fdtProperty (nameBytes prop.1) prop.2 (swBuffer size bytes table) =
          .ok (swBuffer size (bytes ++ tokenBytes (swOffset k) (.item prop)) (intern table prop.1))
    else fdtProperty (nameBytes prop.1) prop.2 (swBuffer size bytes table) = .error (-FDT_ERR_NOSPACE) := by
  have interned := fdtFindAddString_swBuffer small fits short
  have probed : ¬ fdtSwProbeStruct (swBuffer size bytes table) ≠ 0 := by
    rw [fdtSwProbeStruct_swBuffer small fits]
    simp
  by_cases named : 64 + bytes.length + (intern table prop.1).length ≤ size
  · rw [if_pos named] at interned
    obtain ⟨k, positive, name, added⟩ := interned
    have nonzero : ¬ (-(k : Int)) = 0 := by omega
    have grabbed := fdtGrabSpace_swBuffer small named (FDT_PROPERTY_SIZE + fdtTagalign prop.2.length)
    rw [← show tokenSize (.item prop) = FDT_PROPERTY_SIZE + fdtTagalign prop.2.length from rfl] at grabbed
    by_cases enough : 64 + (bytes.length + tokenSize (.item prop)) + (intern table prop.1).length ≤ size
    · rw [if_pos enough] at grabbed ⊢
      refine ⟨k, name, ?_⟩
      rw [fdtProperty, if_neg probed, added]
      simp only [if_neg nonzero]
      rw [show FDT_PROPERTY_SIZE + fdtTagalign prop.2.length = tokenSize (.item prop) from rfl, grabbed]
      exact congrArg Except.ok (writeAt_property size (swOffset k) bytes _ prop)
    · rw [if_neg enough] at grabbed ⊢
      rw [fdtProperty, if_neg probed, added]
      simp only [if_neg nonzero]
      rw [show FDT_PROPERTY_SIZE + fdtTagalign prop.2.length = tokenSize (.item prop) from rfl, grabbed]
  · rw [if_neg named] at interned
    rw [if_neg (by omega), fdtProperty, if_neg probed]
    simp only [interned, if_true]

end Buffers

/-! Runs of calls. -/

def internToken (table : List UInt8) : FdtToken → List UInt8
  | .item prop => intern table prop.1
  | .enter _ | .leave => table

/-- The names of all properties. -/
def internAll (table : List UInt8) (tokens : List FdtToken) : List UInt8 := tokens.foldl internToken table

/-- A name that the writer has room for: it refuses a longer one too late. -/
def ShortName : FdtToken → Prop
  | .item prop => prop.1.length < 64
  | .enter _ | .leave => True

section Runs

variable {size : ℕ} {bytes table table' : List UInt8} {tokens : List FdtToken} {nameoff : ℕ → ℕ}

theorem internToken_suffix (table : List UInt8) (token : FdtToken) : table <:+ internToken table token := by
  cases token with
  | enter name => exact List.suffix_rfl
  | leave => exact List.suffix_rfl
  | item prop =>
      rw [internToken, intern]
      split
      · exact List.suffix_rfl
      · exact (List.suffix_cons _ _).trans (List.suffix_append _ _)

theorem internAll_suffix (table : List UInt8) (tokens : List FdtToken) : table <:+ internAll table tokens := by
  induction tokens generalizing table with
  | nil => exact List.suffix_rfl
  | cons token tokens ih => exact (internToken_suffix table token).trans (ih _)

theorem Named.mono {name : Name} {k : ℕ} (named : Named table name k) (larger : table <:+ table') :
    Named table' name k := by
  obtain ⟨more, rfl⟩ := larger
  refine ⟨?_, ?_⟩
  · have := named.1
    rw [List.length_append]
    omega
  · have start : (more ++ table).length - k = more.length + (table.length - k) := by
      have := named.1
      rw [List.length_append]
      omega
    rw [start, ← List.drop_drop, List.drop_left]
    exact named.2

theorem Encodes.mono (encodes : Encodes table nameoff tokens bytes) (larger : table <:+ table') :
    Encodes table' nameoff tokens bytes := by
  induction encodes with
  | nil => exact .nil
  | cons k named rest ih => exact .cons k (fun prop same => (named prop same).mono larger) ih

theorem fdtCall_swBuffer (small : size ≤ INT_MAX) (fits : 64 + bytes.length + table.length ≤ size)
    (token : FdtToken) (short : ShortName token) :
    if 64 + (bytes.length + tokenSize token) + (internToken table token).length ≤ size then
      ∃ k, (∀ prop, token = .item prop → Named (internToken table token) prop.1 k) ∧
        fdtCall (swBuffer size bytes table) token =
          .ok (swBuffer size (bytes ++ tokenBytes (swOffset k) token) (internToken table token))
    else fdtCall (swBuffer size bytes table) token = .error (-FDT_ERR_NOSPACE) := by
  cases token with
  | enter name =>
      rw [fdtCall, fdtBeginNode_swBuffer small fits name (swOffset 0), internToken]
      split
      · exact ⟨0, by simp, rfl⟩
      · rfl
  | item prop =>
      have called := fdtProperty_swBuffer small fits prop short
      rw [internToken, fdtCall]
      split at called
      · rename_i enough
        rw [if_pos enough]
        obtain ⟨k, named, written⟩ := called
        exact ⟨k, by rintro _ ⟨⟩; exact named, written⟩
      · rename_i full
        rw [if_neg full]
        exact called
  | leave =>
      rw [fdtCall, fdtEndNode_swBuffer small fits (swOffset 0), internToken]
      split
      · exact ⟨0, by simp, rfl⟩
      · rfl

/-- A run succeeds exactly where its structure and its names fit. -/
theorem foldlM_fdtCall (small : size ≤ INT_MAX) (fits : 64 + bytes.length + table.length ≤ size)
    (short : ∀ token ∈ tokens, ShortName token) :
    if 64 + (bytes.length + tokensSize tokens) + (internAll table tokens).length ≤ size then
      ∃ more, Encodes (internAll table tokens) swOffset tokens more ∧
        tokens.foldlM fdtCall (swBuffer size bytes table) =
          .ok (swBuffer size (bytes ++ more) (internAll table tokens))
    else tokens.foldlM fdtCall (swBuffer size bytes table) = .error (-FDT_ERR_NOSPACE) := by
  induction tokens generalizing bytes table with
  | nil =>
      rw [if_pos (by simpa [tokensSize, internAll] using fits)]
      exact ⟨[], .nil, by simp [internAll]; rfl⟩
  | cons token tokens ih =>
      have called := fdtCall_swBuffer small fits token (short token (by simp))
      have larger := internAll_suffix (internToken table token) tokens
      have grown := larger.length_le
      have all : internAll table (token :: tokens) = internAll (internToken table token) tokens := rfl
      rw [List.foldlM_cons, tokensSize_cons, all]
      by_cases first : 64 + (bytes.length + tokenSize token) + (internToken table token).length ≤ size
      · rw [if_pos first] at called
        obtain ⟨k, named, written⟩ := called
        have longer : (bytes ++ tokenBytes (swOffset k) token).length = bytes.length + tokenSize token := by simp
        have rest := @ih (bytes ++ tokenBytes (swOffset k) token) (internToken table token) (by rw [longer]; omega)
          fun token member => short token (by simp [member])
        rw [longer, Nat.add_assoc bytes.length] at rest
        rw [written]
        split at rest
        · rename_i enough
          obtain ⟨more, encodes, run⟩ := rest
          rw [if_pos enough]
          exact ⟨_, .cons k (fun prop same => (named prop same).mono larger) encodes,
            run.trans (by rw [List.append_assoc])⟩
        · rename_i full
          rw [if_neg full]
          exact rest
      · rw [if_neg first] at called
        rw [if_neg (by omega), called]
        rfl

end Runs

end Kmorph.Fdt
