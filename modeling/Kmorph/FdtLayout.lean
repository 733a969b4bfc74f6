import Kmorph.FdtWriterCore

/-!
The layout of a flattened tree: the bytes of its tokens in the structure block, and
what `fdt_next_tag` makes of them.
-/

namespace Kmorph.Fdt

open BigEndian Brackets Extents

theorem cuint_natCast {n : ℕ} (small : n < 2 ^ 32) : cuint n = n := by
  rw [cuint]
  omega

theorem fdtHeader_lt (fdt : List UInt8) (f : HeaderField) : fdtHeader fdt f < 2 ^ 32 := by
  have width : (cells fdt f.offset 4).length ≤ 4 := by
    rw [cells, List.length_take]
    omega
  calc
    fdtHeader fdt f < 256 ^ (cells fdt f.offset 4).length := decode_lt _
    _ ≤ 256 ^ 4 := Nat.pow_le_pow_right (by decide) width

theorem fdtTagalign_add {m n : ℕ} (aligned : m % 4 = 0) : fdtTagalign (m + n) = m + fdtTagalign n := by
  simp only [fdtTagalign, fdtAlign, FDT_TAGSIZE]
  omega

theorem fdtTagalign_mod (n : ℕ) : fdtTagalign n % 4 = 0 := by
  simp only [fdtTagalign, fdtAlign, FDT_TAGSIZE]
  omega

/-- These bytes stand at an offset of the structure block. -/
@[mk_iff]
structure Holds (fdt : List UInt8) (offset : ℕ) (bytes : List UInt8) : Prop where
  struct : 0x11 ≤ fdtHeader fdt .version → offset + bytes.length ≤ fdtHeader fdt .sizeDtStruct
  inside : fdtHeader fdt .offDtStruct + (offset + bytes.length) ≤ fdtHeader fdt .totalsize
  total : fdtHeader fdt .totalsize ≤ fdt.length
  small : fdtHeader fdt .totalsize ≤ INT_MAX
  stand : cells fdt (fdtHeader fdt .offDtStruct + offset) bytes.length = bytes

instance (fdt : List UInt8) (offset : ℕ) (bytes : List UInt8) : Decidable (Holds fdt offset bytes) :=
  decidable_of_iff' _ (holds_iff fdt offset bytes)

section Holding

variable {fdt bytes first second third : List UInt8} {offset len n : ℕ}

theorem cells_add (file : List UInt8) (off len more : ℕ) :
    cells file off (len + more) = cells file off len ++ cells file (off + len) more := by
  rw [cells, cells, cells, List.take_add, List.drop_drop]

theorem Holds.left (holds : Holds fdt offset (first ++ second)) : Holds fdt offset first := by
  have inside := holds.inside
  have stand := holds.stand
  rw [List.length_append] at inside stand
  have total := holds.total
  refine ⟨fun current => ?_, by omega, total, holds.small, ?_⟩
  · have := holds.struct current
    rw [List.length_append] at this
    omega
  · rw [cells_add] at stand
    exact (List.append_inj stand (length_cells (by omega))).1

theorem Holds.right (holds : Holds fdt offset (first ++ second)) : Holds fdt (offset + first.length) second := by
  have inside := holds.inside
  have stand := holds.stand
  rw [List.length_append] at inside stand
  have total := holds.total
  refine ⟨fun current => ?_, by omega, total, holds.small, ?_⟩
  · have := holds.struct current
    rw [List.length_append] at this
    omega
  · rw [cells_add] at stand
    rw [← Nat.add_assoc]
    exact (List.append_inj stand (length_cells (by omega))).2

theorem Holds.middle (holds : Holds fdt 0 (first ++ (second ++ third))) : Holds fdt first.length second := by
  have behind := holds.right.left
  rwa [Nat.zero_add] at behind

theorem Holds.append (holds : Holds fdt offset first) (behind : Holds fdt (offset + first.length) second) :
    Holds fdt offset (first ++ second) := by
  refine ⟨fun current => ?_, ?_, holds.total, holds.small, ?_⟩
  · have := behind.struct current
    rw [List.length_append]
    omega
  · have := behind.inside
    rw [List.length_append]
    omega
  · rw [List.length_append, cells_add, holds.stand, Nat.add_assoc, behind.stand]

theorem Holds.offsetPtr (holds : Holds fdt offset bytes) (inside : len ≤ bytes.length) :
    fdtOffsetPtr fdt offset len = some (fdtHeader fdt .offDtStruct + offset) := by
  have below := holds.inside
  have small := holds.small
  have struct := holds.struct
  simp only [INT_MAX] at small
  have absolute : cuint (offset + fdtHeader fdt .offDtStruct) = offset + fdtHeader fdt .offDtStruct := by
    rw [cuint]
    omega
  have relative : cuint ((offset : Int) + len) = offset + len := by
    rw [cuint]
    omega
  have end_ : cuint ((cuint (offset + fdtHeader fdt .offDtStruct) : Int) + len) =
      offset + fdtHeader fdt .offDtStruct + len := by
    rw [absolute, cuint]
    omega
  have start : cuint offset = offset := cuint_natCast (by omega)
  simp only [fdtOffsetPtr]
  rw [if_neg (by simp only [INT_MAX]; omega), end_, absolute, start, relative, if_neg (by omega), if_neg (by omega)]
  simp

theorem Holds.load (holds : Holds fdt offset bytes) :
    Fdt.load fdt (fdtHeader fdt .offDtStruct + offset) bytes.length = some bytes := by
  have below := holds.inside
  have total := holds.total
  rw [Fdt.load, if_pos (by omega), holds.stand]

theorem Holds.load32 (holds : Holds fdt offset (encode 4 n)) (fits : n < 256 ^ 4) :
    Fdt.load32 fdt (fdtHeader fdt .offDtStruct + offset) = some n := by
  have loaded := holds.load
  rw [length_encode] at loaded
  rw [Fdt.load32, loaded, Option.map_some, decode_encode_of_lt fits]

end Holding

/-! The pieces of the structure block. -/

def pad (bytes : List UInt8) : List UInt8 :=
  bytes ++ List.replicate (fdtTagalign bytes.length - bytes.length) 0

@[simp] theorem length_pad (bytes : List UInt8) : (pad bytes).length = fdtTagalign bytes.length := by
  have := le_fdtTagalign bytes.length
  rw [pad, List.length_append, List.length_replicate]
  omega

@[simp] theorem length_nameBytes (name : Name) : (nameBytes name).length = name.length := List.length_map _

/-- A C string. -/
def CString (name : Name) : Prop := ∀ c ∈ name, 0 < c.toNat ∧ c.toNat < 256

instance (name : Name) : Decidable (CString name) :=
  decidable_of_iff (name.all fun c => 0 < c.toNat && c.toNat < 256) (by simp [CString])

theorem CString.noNul {name : Name} (string : CString name) : 0 ∉ nameBytes name := by
  intro member
  obtain ⟨c, inside, zero⟩ := List.mem_map.mp member
  have range := string c inside
  have value := congrArg UInt8.toNat zero
  rw [UInt8.toNat_ofNat', UInt8.toNat_zero] at value
  omega

/-- A tag with what belongs to it: the text that names a node; the offset of a property's name, the
gap before its value and the value. -/
inductive Piece
  | node (label : Name)
  | prop (nameoff : ℕ) (gap val : List UInt8)
  | leave
  | nop
  | stop

namespace Piece

def tag : Piece → FdtTag
  | node _ => .beginNode
  | prop .. => .prop
  | leave => .endNode
  | nop => .nop
  | stop => .stop

def body : Piece → List UInt8
  | node label => pad (nameBytes label ++ [0])
  | prop nameoff gap val => encode 4 val.length ++ (encode 4 nameoff ++ (gap ++ pad val))
  | leave | nop | stop => []

def bytes (piece : Piece) : List UInt8 := encode 4 piece.tag.word ++ piece.body

/-- Before version 16 a long value stands at a multiple of eight. -/
def Fits (fdt : List UInt8) (offset : ℕ) : Piece → Prop
  | node label => CString label
  | prop _ gap val =>
      gap.length = if fdtHeader fdt .version < 0x10 ∧ 8 ≤ val.length ∧ (offset + 12) % 8 ≠ 0 then 4 else 0
  | leave | nop | stop => True

instance (fdt : List UInt8) (offset : ℕ) (piece : Piece) : Decidable (piece.Fits fdt offset) := by
  cases piece <;> unfold Fits <;> infer_instance

/-- What follows the tag, without its padding. -/
def inner : Piece → ℕ
  | node label => label.length + 1
  | prop _ gap val => 8 + gap.length + val.length
  | leave | nop | stop => 0

variable {fdt : List UInt8} {offset : ℕ} {piece : Piece}

theorem Fits.gap_mod {nameoff : ℕ} {gap val : List UInt8} (fits : (prop nameoff gap val).Fits fdt offset) :
    gap.length % 4 = 0 := by
  rw [Fits] at fits
  split at fits <;> omega

theorem Fits.length_body (fits : piece.Fits fdt offset) : piece.body.length = fdtTagalign piece.inner := by
  cases piece with
  | node label => simp [body, inner]
  | prop nameoff gap val =>
      have aligned := fits.gap_mod
      rw [inner, fdtTagalign_add (by omega)]
      simp only [body, List.length_append, length_encode, length_pad]
      omega
  | leave | nop | stop => rfl

theorem Fits.length_bytes (fits : piece.Fits fdt offset) : piece.bytes.length = fdtTagalign (4 + piece.inner) := by
  rw [bytes, List.length_append, length_encode, fits.length_body, fdtTagalign_add rfl]

end Piece

/-- A piece stands where a tag may stand. -/
@[mk_iff]
structure Placed (fdt : List UInt8) (offset : ℕ) (piece : Piece) : Prop where
  aligned : offset % 4 = 0
  holds : Holds fdt offset piece.bytes
  fits : piece.Fits fdt offset

instance (fdt : List UInt8) (offset : ℕ) (piece : Piece) : Decidable (Placed fdt offset piece) :=
  decidable_of_iff' _ (placed_iff fdt offset piece)

theorem ofWord_word (tag : FdtTag) : FdtTag.ofWord tag.word = some tag := by cases tag <;> rfl

theorem word_lt (tag : FdtTag) : tag.word < 256 ^ 4 := by cases tag <;> decide

section Tags

variable {fdt : List UInt8} {offset : ℕ} {piece : Piece}

theorem Holds.skipName {name more : List UInt8} (holds : Holds fdt offset (name ++ 0 :: more)) (noNul : 0 ∉ name) :
    Fdt.skipName fdt offset = some (some ((offset + (name.length + 1) : ℕ) : Int)) := by
  induction name generalizing offset with
  | nil =>
      have byte := @Holds.left _ [0] more _ holds
      have loaded : Fdt.load fdt (fdtHeader fdt .offDtStruct + offset) 1 = some [0] := byte.load
      rw [Fdt.skipName, byte.offsetPtr (by simp)]
      simp [loaded]
  | cons c name ih =>
      have byte := @Holds.left _ [c] (name ++ 0 :: more) _ holds
      have behind := @Holds.right _ [c] (name ++ 0 :: more) _ holds
      have loaded : Fdt.load fdt (fdtHeader fdt .offDtStruct + offset) 1 = some [c] := byte.load
      have more : ¬ [c] = [0] := by
        rintro ⟨⟩
        exact noNul (by simp)
      have next := ih behind fun member => noNul (by simp [member])
      rw [List.length_singleton, Nat.cast_succ] at next
      rw [Fdt.skipName, byte.offsetPtr (by simp)]
      simp only [loaded, more, if_false, next, List.length_cons, Option.some.injEq]
      omega

theorem Placed.skipProp {nameoff : ℕ} {gap val : List UInt8} (placed : Placed fdt offset (.prop nameoff gap val)) :
    Fdt.skipProp fdt ((offset + 4 : ℕ) : Int) =
      some (some ((offset + (4 + (8 + gap.length + val.length)) : ℕ) : Int)) := by
  have behind := placed.holds.right
  have below := behind.inside
  have small := behind.small
  have fits := placed.fits
  have room := le_fdtTagalign val.length
  simp only [Piece.body, List.length_append, length_encode, length_pad, INT_MAX] at below small
  have range : val.length < 256 ^ 4 := by omega
  have length := behind.left.load32 range
  simp only [length_encode] at length
  have sum : cuint ((val.length : Int) + ((offset + 4 : ℕ) : Int)) = val.length + (offset + 4) := by
    rw [cuint]
    omega
  have start : cuint ((offset + 4 : ℕ) : Int) = offset + 4 := cuint_natCast (by omega)
  have pointer : fdtOffsetPtr fdt ((offset + 4 : ℕ) : Int) 4 = some (fdtHeader fdt .offDtStruct + (offset + 4)) :=
    behind.left.offsetPtr (by simp)
  rw [Fdt.skipProp, pointer]
  simp only [length, Option.bind_eq_bind, Option.bind_some, sum, start]
  have width : FDT_PROPERTY_SIZE = 12 := rfl
  have tag : FDT_TAGSIZE = 4 := rfl
  rw [if_neg (by simp only [INT_MAX]; omega)]
  rw [Piece.Fits] at fits
  split at fits
  · rw [if_pos (by omega), Option.some.injEq, Option.some.injEq]
    omega
  · rw [if_neg (by omega), Option.some.injEq, Option.some.injEq]
    omega

theorem Placed.skipTag (placed : Placed fdt offset piece) :
    Fdt.skipTag fdt ((offset + 4 : ℕ) : Int) piece.tag = some (some ((offset + (4 + piece.inner) : ℕ) : Int)) := by
  cases piece with
  | node label =>
      have behind := placed.holds.right
      rw [length_encode, Piece.body, pad, List.append_assoc, List.singleton_append] at behind
      rw [Piece.tag, Fdt.skipTag, behind.skipName (CString.noNul placed.fits), length_nameBytes, Piece.inner,
        Nat.add_assoc]
  | prop nameoff gap val => exact placed.skipProp
  | leave | nop | stop => rfl

/-- What `fdt_next_tag` reads of a piece, and where it goes on. -/
theorem Placed.nextTag (placed : Placed fdt offset piece) :
    fdtNextTag fdt offset = some (piece.tag, ((offset + piece.bytes.length : ℕ) : Int)) := by
  have tagged := placed.holds.left
  have room := le_fdtTagalign (4 + piece.inner)
  have length := placed.fits.length_bytes
  have below := placed.holds.inside
  have small := placed.holds.small
  simp only [INT_MAX] at small
  have taken : cuint (((offset + (4 + piece.inner) : ℕ) : Int) - offset) = 4 + piece.inner := by
    rw [cuint]
    omega
  have skipped := placed.skipTag
  rw [Nat.cast_add] at skipped
  rw [fdtNextTag, tagged.offsetPtr (by simp [FDT_TAGSIZE])]
  simp only [tagged.load32 (word_lt _), ofWord_word, FDT_TAGSIZE, skipped, taken]
  rw [if_neg (by rw [placed.holds.offsetPtr (by omega)]; simp), Int.toNat_natCast, fdtTagalign_add placed.aligned,
    length]

end Tags

/-! The tokens a structure block is read as. -/

def tokenTag : FdtToken → FdtTag
  | .enter _ => .beginNode
  | .item _ => .prop
  | .leave => .endNode

/-- How far the names of properties may reach. -/
def stringsSize (fdt : List UInt8) : ℕ :=
  if 0x11 ≤ fdtHeader fdt .version then fdtHeader fdt .sizeDtStrings
  else fdtHeader fdt .totalsize - fdtHeader fdt .offDtStrings

/-- A property's name stands at an offset among the strings. -/
def StringAt (fdt : List UInt8) (nameoff : ℕ) (name : Name) : Prop :=
  nameBytes name ++ [0] <+: cells fdt (fdtHeader fdt .offDtStrings + nameoff) (stringsSize fdt - nameoff)

/-- Before version 16 a node is named by its path. -/
def Labels (fdt : List UInt8) (label name : Name) : Prop :=
  if fdtHeader fdt .version < 0x10 then '/' ∉ name ∧ '/' :: name <:+ label else label = name

def Piece.Means (fdt : List UInt8) : Piece → FdtToken → Prop
  | .node label, .enter name => Labels fdt label name
  | .prop nameoff _ val, .item (name, stored) => val = stored ∧ CString name ∧ StringAt fdt nameoff name
  | .leave, .leave => True
  | _, _ => False

instance (fdt : List UInt8) (piece : Piece) (token : FdtToken) : Decidable (piece.Means fdt token) := by
  cases piece <;> cases token <;> unfold Piece.Means <;> (try unfold Labels StringAt) <;> infer_instance

/-- The structure block from an offset on, and the tokens it is read as. Tags without meaning may stand
anywhere between them. -/
inductive Laid (fdt : List UInt8) : ℕ → List FdtToken → Prop
  | stop {offset : ℕ} (placed : Placed fdt offset .stop) : Laid fdt offset []
  | nop {offset : ℕ} {tokens : List FdtToken} (placed : Placed fdt offset .nop)
      (rest : Laid fdt (offset + Piece.nop.bytes.length) tokens) : Laid fdt offset tokens
  | cons {offset : ℕ} {token : FdtToken} {tokens : List FdtToken} {piece : Piece} (placed : Placed fdt offset piece)
      (means : piece.Means fdt token) (rest : Laid fdt (offset + piece.bytes.length) tokens) :
      Laid fdt offset (token :: tokens)

/-- The first token stands at the offset itself, the others behind it. -/
def Starts (fdt : List UInt8) (offset : Int) (token : FdtToken) (rest : List FdtToken) : Prop :=
  ∃ (start : ℕ) (piece : Piece), offset = start ∧ Placed fdt start piece ∧ piece.Means fdt token ∧
    Laid fdt (start + piece.bytes.length) rest

section Tokens

variable {fdt : List UInt8} {offset : ℕ} {token : FdtToken} {tokens : List FdtToken}

theorem Piece.Means.tag {piece : Piece} (means : piece.Means fdt token) : piece.tag = tokenTag token := by
  cases piece <;> cases token <;> first | rfl | exact means.elim

theorem Placed.starts {piece : Piece} (placed : Placed fdt offset piece) (means : piece.Means fdt token)
    (rest : Laid fdt (offset + piece.bytes.length) tokens) : Starts fdt offset token tokens :=
  ⟨offset, piece, rfl, placed, means, rest⟩

theorem Starts.nextTag {start : Int} (starts : Starts fdt start token tokens) :
    0 ≤ start ∧ start % 4 = 0 ∧
      ∃ next : ℕ, fdtNextTag fdt start = some (tokenTag token, (next : Int)) ∧ Laid fdt next tokens := by
  obtain ⟨start, piece, rfl, placed, means, rest⟩ := starts
  have aligned := placed.aligned
  refine ⟨by omega, by omega, _, ?_, rest⟩
  rw [placed.nextTag, means.tag]

/-- Whatever follows starts with a tag. -/
theorem Laid.holds_tag (laid : Laid fdt offset tokens) : ∃ tag : FdtTag, Holds fdt offset (encode 4 tag.word) := by
  cases laid with
  | stop placed | nop placed | cons placed => exact ⟨_, placed.holds.left⟩

end Tokens

/-! The tokens as the writer puts them: of the current version, one after the other. -/

def tokenPiece (nameoff : ℕ) : FdtToken → Piece
  | .enter name => .node name
  | .item prop => .prop nameoff [] prop.2
  | .leave => .leave

/-- The bytes of a token; `nameoff` stands for the name of a property. -/
def tokenBytes (nameoff : ℕ) (token : FdtToken) : List UInt8 := (tokenPiece nameoff token).bytes

def tokenSize : FdtToken → ℕ
  | .enter name => 4 + fdtTagalign (name.length + 1)
  | .item prop => 12 + fdtTagalign prop.2.length
  | .leave => 4

def tokensSize (tokens : List FdtToken) : ℕ := (tokens.map tokenSize).sum

@[simp] theorem length_tokenBytes (nameoff : ℕ) (token : FdtToken) :
    (tokenBytes nameoff token).length = tokenSize token := by
  cases token <;> simp [tokenBytes, tokenPiece, Piece.bytes, Piece.body, tokenSize]
  omega

theorem tokenSize_mod (token : FdtToken) : tokenSize token % 4 = 0 := by
  cases token with
  | enter name =>
      have := fdtTagalign_mod (name.length + 1)
      rw [tokenSize]
      omega
  | item prop =>
      have := fdtTagalign_mod prop.2.length
      rw [tokenSize]
      omega
  | leave => rfl

def ValidToken : FdtToken → Prop
  | .enter name => CString name
  | .item prop => CString prop.1
  | .leave => True

/-- The name stands in the table, so many bytes before its end. -/
def Named (table : List UInt8) (name : Name) (k : ℕ) : Prop :=
  k ≤ table.length ∧ nameBytes name ++ [0] <+: table.drop (table.length - k)

/-- Bytes of tokens whose properties refer to the names of a table. -/
inductive Encodes (table : List UInt8) (nameoff : ℕ → ℕ) : List FdtToken → List UInt8 → Prop
  | nil : Encodes table nameoff [] []
  | cons {token : FdtToken} {tokens : List FdtToken} {bytes : List UInt8} (k : ℕ)
      (named : ∀ prop, token = .item prop → Named table prop.1 k) (rest : Encodes table nameoff tokens bytes) :
      Encodes table nameoff (token :: tokens) (tokenBytes (nameoff k) token ++ bytes)

section Encodings

variable {table bytes : List UInt8} {nameoff : ℕ → ℕ} {tokens : List FdtToken}

theorem tokensSize_cons (token : FdtToken) (tokens : List FdtToken) :
    tokensSize (token :: tokens) = tokenSize token + tokensSize tokens := by
  simp [tokensSize]

theorem Encodes.length (encodes : Encodes table nameoff tokens bytes) : bytes.length = tokensSize tokens := by
  induction encodes with
  | nil => rfl
  | cons k named rest ih => rw [List.length_append, length_tokenBytes, ih, tokensSize_cons]

end Encodings

section Placing

variable {fdt bytes : List UInt8} {offset nameoff : ℕ} {token : FdtToken} {tokens : List FdtToken}

theorem placed_token (current : 0x11 ≤ fdtHeader fdt .version) (aligned : offset % 4 = 0) (valid : ValidToken token)
    (holds : Holds fdt offset (tokenBytes nameoff token)) : Placed fdt offset (tokenPiece nameoff token) := by
  refine ⟨aligned, holds, ?_⟩
  cases token with
  | enter name => exact valid
  | item prop =>
      rw [tokenPiece, Piece.Fits, if_neg (by omega)]
      rfl
  | leave => trivial

theorem placed_stop (aligned : offset % 4 = 0) (holds : Holds fdt offset (encode 4 FdtTag.stop.word)) :
    Placed fdt offset .stop := by
  refine ⟨aligned, ?_, trivial⟩
  rwa [Piece.bytes, Piece.body, List.append_nil]

end Placing

/-- What `fdtutil_check` has seen. -/
structure Checked (fdt : List UInt8) : Prop where
  magic : fdtHeader fdt .magic = FDT_MAGIC
  first : FDT_FIRST_SUPPORTED_VERSION ≤ fdtHeader fdt .version
  last : fdtHeader fdt .lastCompVersion ≤ FDT_LAST_SUPPORTED_VERSION
  total : fdtHeader fdt .totalsize ≤ fdt.length
  small : fdtHeader fdt .totalsize ≤ INT_MAX
  start : fdtHeader fdt .offDtStruct ≤ fdtHeader fdt .totalsize
  struct : 17 ≤ fdtHeader fdt .version →
    fdtHeader fdt .offDtStruct + fdtHeader fdt .sizeDtStruct ≤ fdtHeader fdt .totalsize
  strings : fdtHeader fdt .offDtStrings + fdtHeader fdt .sizeDtStrings ≤ fdtHeader fdt .totalsize

theorem checkBlock_inside {hdrsize totalsize base size : ℕ} (checked : checkBlock hdrsize totalsize base size = true)
    (base_lt : base < 2 ^ 32) (size_lt : size < 2 ^ 32) : base + size ≤ totalsize := by
  simp only [checkBlock, checkOff, Bool.and_eq_true, Bool.not_eq_true', decide_eq_true_eq,
    decide_eq_false_iff_not] at checked
  simp only [cuint] at checked
  omega

theorem fdtCheckHeader_eq_zero {fdt : List UInt8} :
    fdtCheckHeader fdt = 0 ↔
      fdtHeader fdt .magic = FDT_MAGIC ∧
      (FDT_FIRST_SUPPORTED_VERSION ≤ fdtHeader fdt .version ∧
        fdtHeader fdt .lastCompVersion ≤ FDT_LAST_SUPPORTED_VERSION) ∧
      fdtHeader fdt .lastCompVersion ≤ fdtHeader fdt .version ∧
      (fdtHeaderSize (fdtHeader fdt .version) ≤ fdtHeader fdt .totalsize ∧ fdtHeader fdt .totalsize ≤ INT_MAX) ∧
      checkOff (fdtHeaderSize (fdtHeader fdt .version)) (fdtHeader fdt .totalsize)
        (fdtHeader fdt .offMemRsvmap) = true ∧
      (fdtHeader fdt .version < 17 →
        checkOff (fdtHeaderSize (fdtHeader fdt .version)) (fdtHeader fdt .totalsize)
          (fdtHeader fdt .offDtStruct) = true) ∧
      (17 ≤ fdtHeader fdt .version →
        checkBlock (fdtHeaderSize (fdtHeader fdt .version)) (fdtHeader fdt .totalsize)
          (fdtHeader fdt .offDtStruct) (fdtHeader fdt .sizeDtStruct) = true) ∧
      checkBlock (fdtHeaderSize (fdtHeader fdt .version)) (fdtHeader fdt .totalsize)
        (fdtHeader fdt .offDtStrings) (fdtHeader fdt .sizeDtStrings) = true := by
  simp only [fdtCheckHeader, FDT_ERR_BADMAGIC, FDT_ERR_BADVERSION, FDT_ERR_TRUNCATED, ite_eq_iff, Int.reduceNeg,
    Int.reduceEq, and_false, false_or, and_true, ne_eq, not_not, not_or, not_and, Bool.not_eq_true', Bool.not_eq_false,
    not_lt, gt_iff_lt, ge_iff_le]

theorem fdtutilCheck_checked {fdt : List UInt8} (accepted : fdtutilCheck fdt = 0) : Checked fdt := by
  simp only [fdtutilCheck, EINVAL] at accepted
  split at accepted
  · simp at accepted
  · rename_i header
    split at accepted
    · rename_i total
      have zero : fdtCheckHeader fdt = 0 := by tauto
      obtain ⟨magic, ⟨first, last⟩, -, ⟨-, small⟩, -, old, current, strings⟩ := fdtCheckHeader_eq_zero.mp zero
      have block := fun version => checkBlock_inside (current version) (fdtHeader_lt _ _) (fdtHeader_lt _ _)
      refine ⟨magic, first, last, total, small, ?_, block, checkBlock_inside strings (fdtHeader_lt _ _) (fdtHeader_lt _ _)⟩
      by_cases version : fdtHeader fdt .version < 17
      · have inside := old version
        simp only [checkOff, Bool.and_eq_true, decide_eq_true_eq] at inside
        exact inside.2
      · have := block (by omega)
        omega
    · simp at accepted

def strings (fdt : List UInt8) : List UInt8 := cells fdt (fdtHeader fdt .offDtStrings) (fdtHeader fdt .sizeDtStrings)

/-- A blob that is accepted and whose structure is that of the tokens. -/
structure Flat (fdt : List UInt8) (tokens : List FdtToken) : Prop where
  accepted : fdtutilCheck fdt = 0
  current : 17 ≤ fdtHeader fdt .version
  small : fdtHeader fdt .totalsize < INT_MAX
  valid : ∀ token ∈ tokens, ValidToken token
  struct : ∃ bytes, Encodes (strings fdt) (fun k => (strings fdt).length - k) tokens bytes ∧
    cells fdt (fdtHeader fdt .offDtStruct) (fdtHeader fdt .sizeDtStruct) = bytes ++ encode 4 FdtTag.stop.word

section Flats

variable {fdt bytes : List UInt8} {offset k : ℕ} {name : Name} {token : FdtToken} {tokens : List FdtToken}

theorem Named.stringAt (current : 0x11 ≤ fdtHeader fdt .version) (checked : Checked fdt)
    (named : Named (strings fdt) name k) : StringAt fdt ((strings fdt).length - k) name := by
  have inside := checked.strings
  have total := checked.total
  obtain ⟨within, stands⟩ := named
  have table : (strings fdt).drop ((strings fdt).length - k) =
      cells fdt (fdtHeader fdt .offDtStrings + ((strings fdt).length - k))
        (stringsSize fdt - ((strings fdt).length - k)) := by
    rw [stringsSize, if_pos current]
    generalize (strings fdt).length - k = o
    rw [strings, cells, cells, List.drop_take, List.drop_drop]
  rwa [StringAt, ← table]

theorem means_token (current : 0x11 ≤ fdtHeader fdt .version) (checked : Checked fdt) (valid : ValidToken token)
    (named : ∀ prop, token = .item prop → Named (strings fdt) prop.1 k) :
    (tokenPiece ((strings fdt).length - k) token).Means fdt token := by
  cases token with
  | enter name =>
      rw [tokenPiece, Piece.Means, Labels, if_neg (by omega)]
  | item prop => exact ⟨rfl, valid, (named prop rfl).stringAt current checked⟩
  | leave => trivial

theorem Starts.laid (starts : Starts fdt offset token tokens) : Laid fdt offset (token :: tokens) := by
  obtain ⟨start, piece, same, placed, means, rest⟩ := starts
  obtain rfl := Int.ofNat.inj same
  exact .cons placed means rest

/-- The first token as the writer puts it. -/
theorem starts_token (current : 0x11 ≤ fdtHeader fdt .version) (checked : Checked fdt) (valid : ValidToken token)
    (named : ∀ prop, token = .item prop → Named (strings fdt) prop.1 k) (aligned : offset % 4 = 0)
    (holds : Holds fdt offset (tokenBytes ((strings fdt).length - k) token))
    (rest : Laid fdt (offset + tokenSize token) tokens) : Starts fdt offset token tokens := by
  rw [← length_tokenBytes ((strings fdt).length - k)] at rest
  exact (placed_token current aligned valid holds).starts (means_token current checked valid named) rest

theorem Encodes.laid (current : 0x11 ≤ fdtHeader fdt .version) (checked : Checked fdt)
    (encodes : Encodes (strings fdt) (fun k => (strings fdt).length - k) tokens bytes)
    (valid : ∀ token ∈ tokens, ValidToken token) (aligned : offset % 4 = 0)
    (holds : Holds fdt offset (bytes ++ encode 4 FdtTag.stop.word)) : Laid fdt offset tokens := by
  induction encodes generalizing offset with
  | nil => exact .stop (placed_stop aligned holds)
  | @cons token tokens bytes k named rest ih =>
      obtain ⟨first, others⟩ := List.forall_mem_cons.mp valid
      have width := tokenSize_mod token
      rw [List.append_assoc] at holds
      have behind := holds.right
      rw [length_tokenBytes] at behind
      exact (starts_token current checked first named aligned holds.left (ih others (by omega) behind)).laid

/-- The first token stands where the structure block starts. -/
theorem Flat.starts (flat : Flat fdt (token :: tokens)) : Starts fdt 0 token tokens := by
  have checked := fdtutilCheck_checked flat.accepted
  have inside := checked.struct flat.current
  have total := checked.total
  obtain ⟨bytes, encodes, struct⟩ := flat.struct
  have size : (bytes ++ encode 4 FdtTag.stop.word).length = fdtHeader fdt .sizeDtStruct := by
    rw [← struct, length_cells (by omega)]
  have holds : Holds fdt 0 (bytes ++ encode 4 FdtTag.stop.word) := by
    refine ⟨fun _ => by omega, by omega, total, checked.small, ?_⟩
    rw [size, Nat.add_zero, struct]
  obtain ⟨first, others⟩ := List.forall_mem_cons.mp flat.valid
  obtain - | @⟨_, _, bytes, k, named, rest⟩ := encodes
  rw [List.append_assoc] at holds
  have behind := holds.right
  rw [length_tokenBytes] at behind
  refine starts_token flat.current checked first named rfl holds.left ?_
  exact rest.laid flat.current checked others (by rw [Nat.zero_add, tokenSize_mod]) behind

end Flats

end Kmorph.Fdt
