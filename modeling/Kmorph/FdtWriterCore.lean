import Kmorph.Brackets
import Kmorph.FdtCore

/-!
Executable model of the sequential writer of `lib/fdt`, `fdt_sw.c` with `fdt_pack` of
`fdt_rw.c`, and of `fdtutil_build` of `lib/fdtutil.c`. Names and values are shorter
than 2 GiB.
-/

namespace Kmorph

open Brackets

/-! The calls of a builder are the tokens of the tree it builds. -/

abbrev FdtToken := Token Name (Name × List UInt8)

mutual

def Node.tokens (name : Name) : Node → List FdtToken
  | .mk props children => .enter name :: (props.map .item ++ (Node.forest children ++ [.leave]))

def Node.forest : List (Name × Node) → List FdtToken
  | [] => []
  | (name, node) :: rest => node.tokens name ++ Node.forest rest

end

namespace Fdt

open BigEndian Extents

/-! The sequential writer. A call that fails leaves a buffer that is not used again. -/

def fdtSwProbe (fdt : List UInt8) : Int :=
  if fdtHeader fdt .magic = FDT_MAGIC then -FDT_ERR_BADSTATE
  else if fdtHeader fdt .magic ≠ FDT_SW_MAGIC then -FDT_ERR_BADMAGIC
  else 0

def fdtSwProbeMemrsv (fdt : List UInt8) : Int :=
  if fdtSwProbe fdt ≠ 0 then fdtSwProbe fdt
  else if fdtHeader fdt .offDtStrings ≠ 0 then -FDT_ERR_BADSTATE
  else 0

def fdtSwProbeStruct (fdt : List UInt8) : Int :=
  if fdtSwProbe fdt ≠ 0 then fdtSwProbe fdt
  else if fdtHeader fdt .offDtStrings ≠ fdtHeader fdt .totalsize then -FDT_ERR_BADSTATE
  else 0

/-- The space for a tag: the buffer with the larger structure, and where the space starts. -/
def fdtGrabSpace (fdt : List UInt8) (len : ℕ) : Option (List UInt8 × ℕ) :=
  let offset := fdtHeader fdt .sizeDtStruct
  let spaceleft := cuint (fdtHeader fdt .totalsize - fdtHeader fdt .offDtStruct - fdtHeader fdt .sizeDtStrings)
  if offset + len > spaceleft then none
  else some (fdtSetHeader fdt .sizeDtStruct (offset + len), fdtHeader fdt .offDtStruct + offset)

def fdtCreate (bufsize : ℕ) : Except Int (List UInt8) :=
  let hdrsize := fdtAlign FDT_HEADER_SIZE FDT_RESERVE_ENTRY_SIZE
  if bufsize < hdrsize then .error (-FDT_ERR_NOSPACE)
  else
    let fdt := List.replicate bufsize 0
    let fdt := fdtSetHeader fdt .magic FDT_SW_MAGIC
    let fdt := fdtSetHeader fdt .version FDT_LAST_SUPPORTED_VERSION
    let fdt := fdtSetHeader fdt .lastCompVersion 0
    let fdt := fdtSetHeader fdt .totalsize bufsize
    let fdt := fdtSetHeader fdt .offMemRsvmap hdrsize
    let fdt := fdtSetHeader fdt .offDtStruct (fdtHeader fdt .offMemRsvmap)
    .ok (fdtSetHeader fdt .offDtStrings 0)

def fdtAddReservemapEntry (addr size : ℕ) (fdt : List UInt8) : Except Int (List UInt8) :=
  if fdtSwProbeMemrsv fdt ≠ 0 then .error (fdtSwProbeMemrsv fdt)
  else
    let offset := fdtHeader fdt .offDtStruct
    if offset + FDT_RESERVE_ENTRY_SIZE > fdtHeader fdt .totalsize then .error (-FDT_ERR_NOSPACE)
    else
      let fdt := writeAt 0 fdt offset (encode 8 addr)
      let fdt := writeAt 0 fdt (offset + 8) (encode 8 size)
      .ok (fdtSetHeader fdt .offDtStruct (offset + FDT_RESERVE_ENTRY_SIZE))

def fdtFinishReservemap (fdt : List UInt8) : Except Int (List UInt8) := do
  let fdt ← fdtAddReservemapEntry 0 0 fdt
  return fdtSetHeader fdt .offDtStrings (fdtHeader fdt .totalsize)

def fdtBeginNode (name : List UInt8) (fdt : List UInt8) : Except Int (List UInt8) :=
  if fdtSwProbeStruct fdt ≠ 0 then .error (fdtSwProbeStruct fdt)
  else
    match fdtGrabSpace fdt (FDT_TAGSIZE + fdtTagalign (name.length + 1)) with
    | none => .error (-FDT_ERR_NOSPACE)
    | some (fdt, nh) =>
        let fdt := writeAt 0 fdt nh (encode 4 FdtTag.beginNode.word)
        .ok (writeAt 0 fdt (nh + 4) (name ++ [0]))

def fdtEndNode (fdt : List UInt8) : Except Int (List UInt8) :=
  if fdtSwProbeStruct fdt ≠ 0 then .error (fdtSwProbeStruct fdt)
  else
    match fdtGrabSpace fdt FDT_TAGSIZE with
    | none => .error (-FDT_ERR_NOSPACE)
    | some (fdt, en) => .ok (writeAt 0 fdt en (encode 4 FdtTag.endNode.word))

/-- The table grows down from the end of the buffer, and an offset counts down from there; 0 means
that there is no more room. -/
def fdtAddString (fdt s : List UInt8) : Int × List UInt8 :=
  let totalsize := fdtHeader fdt .totalsize
  let len := s.length + 1
  let offset := fdtHeader fdt .sizeDtStrings + len
  let structTop := fdtHeader fdt .offDtStruct + fdtHeader fdt .sizeDtStruct
  if cuint (totalsize - offset) < structTop then (0, fdt)
  else
    let fdt := writeAt 0 fdt (totalsize - offset) (s ++ [0])
    (-offset, fdtSetHeader fdt .sizeDtStrings offset)

/-- The first place in the table where the string stands, also as the end of another one. -/
def fdtFindString (strtab s : List UInt8) : Option ℕ :=
  (List.range (strtab.length - s.length)).find? fun p => cells strtab p (s.length + 1) = s ++ [0]

def fdtFindAddString (fdt s : List UInt8) : Int × List UInt8 :=
  let totalsize := fdtHeader fdt .totalsize
  let strtabsize := fdtHeader fdt .sizeDtStrings
  match fdtFindString (cells fdt (totalsize - strtabsize) strtabsize) s with
  | some p => (p - strtabsize, fdt)
  | none => fdtAddString fdt s

def fdtProperty (name val : List UInt8) (fdt : List UInt8) : Except Int (List UInt8) :=
  if fdtSwProbeStruct fdt ≠ 0 then .error (fdtSwProbeStruct fdt)
  else
    let (nameoff, fdt) := fdtFindAddString fdt name
    if nameoff = 0 then .error (-FDT_ERR_NOSPACE)
    else
      match fdtGrabSpace fdt (FDT_PROPERTY_SIZE + fdtTagalign val.length) with
      | none => .error (-FDT_ERR_NOSPACE)
      | some (fdt, prop) =>
          let fdt := writeAt 0 fdt prop (encode 4 FdtTag.prop.word)
          let fdt := writeAt 0 fdt (prop + 8) (encode 4 (cuint nameoff))
          let fdt := writeAt 0 fdt (prop + 4) (encode 4 val.length)
          .ok (writeAt 0 fdt (prop + FDT_PROPERTY_SIZE) val)

/-- `memmove` inside the buffer. -/
def moveWithin (fdt : List UInt8) (dest src len : ℕ) : List UInt8 := writeAt 0 fdt dest (cells fdt src len)

/-- The loop of `fdt_finish` over the structure, from an offset on. -/
def fixNameoffs : ℕ → List UInt8 → Int → Option (Except Int (List UInt8))
  | 0, _, _ => none
  | steps + 1, fdt, offset => do
      let (tag, next) ← fdtNextTag fdt offset
      match tag with
      | .stop => return if next < 0 then .error next else .ok fdt
      | .prop =>
          let prop := fdtHeader fdt .offDtStruct + offset.toNat
          let nameoff := cint (← load32 fdt (prop + 8)) + fdtHeader fdt .sizeDtStrings
          fixNameoffs steps (writeAt 0 fdt (prop + 8) (encode 4 (cuint nameoff))) next
      | .beginNode | .endNode | .nop => fixNameoffs steps fdt next

def fdtFinish (fdt : List UInt8) : Option (Except Int (List UInt8)) :=
  if fdtSwProbeStruct fdt ≠ 0 then some (.error (fdtSwProbeStruct fdt))
  else
    match fdtGrabSpace fdt FDT_TAGSIZE with
    | none => some (.error (-FDT_ERR_NOSPACE))
    | some (fdt, stop) => do
        let fdt := writeAt 0 fdt stop (encode 4 FdtTag.stop.word)
        let oldstroffset := fdtHeader fdt .totalsize - fdtHeader fdt .sizeDtStrings
        let newstroffset := fdtHeader fdt .offDtStruct + fdtHeader fdt .sizeDtStruct
        let fdt := moveWithin fdt newstroffset oldstroffset (fdtHeader fdt .sizeDtStrings)
        let fdt := fdtSetHeader fdt .offDtStrings newstroffset
        match ← fixNameoffs (fdt.length + 1) fdt 0 with
        | .error errno => return .error errno
        | .ok fdt =>
            let fdt := fdtSetHeader fdt .totalsize (newstroffset + fdtHeader fdt .sizeDtStrings)
            let fdt := fdtSetHeader fdt .lastCompVersion FDT_LAST_COMPATIBLE_VERSION
            return .ok (fdtSetHeader fdt .magic FDT_MAGIC)

/-! Packing a finished tree, from `fdt_rw.c`. -/

def fdtMemRsv (fdt : List UInt8) (n : ℕ) : Option ℕ :=
  let absoffset := cuint (fdtHeader fdt .offMemRsvmap + n * FDT_RESERVE_ENTRY_SIZE)
  if absoffset < fdtHeader fdt .offMemRsvmap ∨ absoffset + FDT_RESERVE_ENTRY_SIZE > fdtHeader fdt .totalsize then none
  else some (fdtHeader fdt .offMemRsvmap + n * FDT_RESERVE_ENTRY_SIZE)

/-- The entries before the first of size zero, from the `n`-th on. -/
def numMemRsvFrom (fdt : List UInt8) : ℕ → ℕ → Int
  | 0, _ => -FDT_ERR_TRUNCATED
  | left + 1, n =>
      match fdtMemRsv fdt n with
      | none => -FDT_ERR_TRUNCATED
      | some re => if decode (cells fdt (re + 8) 8) = 0 then n else numMemRsvFrom fdt left (n + 1)

def fdtNumMemRsv (fdt : List UInt8) : Int := numMemRsvFrom fdt (fdtHeader fdt .totalsize) 0

def fdtBlocksMisordered (fdt : List UInt8) : Bool :=
  fdtHeader fdt .offMemRsvmap < fdtAlign FDT_HEADER_SIZE 8 ||
  fdtHeader fdt .offDtStruct < fdtHeader fdt .offMemRsvmap + FDT_RESERVE_ENTRY_SIZE ||
  fdtHeader fdt .offDtStrings < fdtHeader fdt .offDtStruct + fdtHeader fdt .sizeDtStruct ||
  fdtHeader fdt .totalsize < fdtHeader fdt .offDtStrings + fdtHeader fdt .sizeDtStrings

def fdtRwProbe (fdt : List UInt8) : Int :=
  if fdtRoProbe fdt < 0 then fdtRoProbe fdt
  else if fdtHeader fdt .version < 17 then -FDT_ERR_BADVERSION
  else if fdtBlocksMisordered fdt then -FDT_ERR_BADLAYOUT
  else 0

def fdtPackblocks (fdt : List UInt8) (memRsvSize structSize stringsSize : ℕ) : List UInt8 :=
  let memRsvOff := fdtAlign FDT_HEADER_SIZE 8
  let structOff := memRsvOff + memRsvSize
  let stringsOff := structOff + structSize
  let fdt := moveWithin fdt memRsvOff (fdtHeader fdt .offMemRsvmap) memRsvSize
  let fdt := fdtSetHeader fdt .offMemRsvmap memRsvOff
  let fdt := moveWithin fdt structOff (fdtHeader fdt .offDtStruct) structSize
  let fdt := fdtSetHeader fdt .offDtStruct structOff
  let fdt := fdtSetHeader fdt .sizeDtStruct structSize
  let fdt := moveWithin fdt stringsOff (fdtHeader fdt .offDtStrings) stringsSize
  let fdt := fdtSetHeader fdt .offDtStrings stringsOff
  fdtSetHeader fdt .sizeDtStrings (fdtHeader fdt .sizeDtStrings)

/-- `fdt_pack` of a tree of the current version, or `none` where it would move a negative number of
bytes. One it cannot pack it leaves alone. -/
def fdtPack (fdt : List UInt8) : Option (List UInt8) :=
  if fdtRwProbe fdt ≠ 0 then some fdt
  else if fdtNumMemRsv fdt < 0 then none
  else
    let memRsvSize := ((fdtNumMemRsv fdt).toNat + 1) * FDT_RESERVE_ENTRY_SIZE
    let fdt := fdtPackblocks fdt memRsvSize (fdtHeader fdt .sizeDtStruct) (fdtHeader fdt .sizeDtStrings)
    some (fdtSetHeader fdt .totalsize (fdtHeader fdt .offDtStrings + fdtHeader fdt .sizeDtStrings))

/-! `fdtutil_build` -/

def fdtCall (fdt : List UInt8) : FdtToken → Except Int (List UInt8)
  | .enter name => fdtBeginNode (nameBytes name) fdt
  | .item prop => fdtProperty (nameBytes prop.1) prop.2 fdt
  | .leave => fdtEndNode fdt

/-- What a callback of `fdtutil_build` does: its calls and, where it gives up behind them, what it
returns. -/
structure Emission where
  calls : List FdtToken
  ret : Int

/-- The calls, which end where there is no memory for a copy of the cells of the next. -/
def emitCalls : (ℕ → Bool) → List FdtToken → List UInt8 → Except Int (List UInt8)
  | _, [], fdt => .ok fdt
  | cells, token :: rest, fdt =>
      if cells 0 then do emitCalls (fun call => cells (call + 1)) rest (← fdtCall fdt token)
      else .error (-FDT_ERR_INTERNAL)

def Emission.run (e : Emission) (cells : ℕ → Bool) (fdt : List UInt8) : Except Int (List UInt8) := do
  let fdt ← emitCalls cells e.calls fdt
  if e.ret ≠ 0 then .error e.ret else .ok fdt

def fdtutilTryBuild (fn : List UInt8 → Except Int (List UInt8)) (size : ℕ) : Option (Except Int (List UInt8)) :=
  let built : Except Int (List UInt8) := do fn (← fdtFinishReservemap (← fdtCreate size))
  match built with
  | .error errno => some (.error errno)
  | .ok fdt => fdtFinish fdt

/-- Which sizes `realloc` grants, and before which calls of an attempt `malloc` grants the copy. -/
structure BuildMemory where
  buffer : ℕ → Bool
  cells : ℕ → ℕ → Bool

def BuildMemory.all : BuildMemory := ⟨fun _ => true, fun _ _ => true⟩

/-- The size of the buffer once it has been doubled so many times. -/
def attemptSize (doubled : ℕ) : ℕ := 16 * 1024 * 2 ^ doubled

/-- The loop of `fdtutil_build`, once the size has been doubled so many times. -/
def buildLoop (memory : BuildMemory) (e : Emission) (doubled : ℕ) : Option (Except Int (List UInt8)) :=
  let size := attemptSize doubled
  if !memory.buffer size then some (.error (-ENOMEM))
  else
    match fdtutilTryBuild (e.run (memory.cells doubled)) size with
    | none => none
    | some (.ok fdt) => do
        let fdt ← fdtPack fdt
        return .ok (fdt.take (fdtHeader fdt .totalsize))
    | some (.error errno) =>
        if errno ≠ -FDT_ERR_NOSPACE then some (.error (-EINVAL))
        else if size ≥ 4 * 1024 * 1024 then some (.error (-ENOSPC))
        else buildLoop memory e (doubled + 1)
termination_by 8 - doubled
decreasing_by
  simp only [size, attemptSize] at *
  have : 2 ^ doubled < 2 ^ 8 := by omega
  have := (Nat.pow_lt_pow_iff_right (by decide)).mp this
  omega

/-- The blob, of the length that is returned beside it. -/
def fdtutilBuild (memory : BuildMemory) (e : Emission) : Option (Except Int (List UInt8)) :=
  buildLoop memory e 0

end Fdt

end Kmorph
