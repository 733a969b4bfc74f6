import Kmorph.Extents
import Kmorph.OverlayCore

/-!
Executable model of the flattened device tree and of the readers of `lib/fdt` that
are used, with `fdtutil_check` of `lib/fdtutil.c`. A blob is the bytes of its buffer,
which `malloc` aligns. What reads it is `none` where it would leave the buffer. An
`int` is an integer and an `unsigned` a natural number; each conversion is written
out.
-/

namespace Kmorph.Fdt

open BigEndian Extents

/-! The format. -/

def FDT_MAGIC : ℕ := 0xd00dfeed
def FDT_SW_MAGIC : ℕ := 2 ^ 32 - 1 - FDT_MAGIC
def FDT_FIRST_SUPPORTED_VERSION : ℕ := 0x02
def FDT_LAST_COMPATIBLE_VERSION : ℕ := 0x10
def FDT_LAST_SUPPORTED_VERSION : ℕ := 0x11
def FDT_TAGSIZE : ℕ := 4
def FDT_HEADER_SIZE : ℕ := 40
def FDT_RESERVE_ENTRY_SIZE : ℕ := 16
def FDT_PROPERTY_SIZE : ℕ := 12

def FDT_ERR_NOTFOUND : Int := 1
def FDT_ERR_NOSPACE : Int := 3
def FDT_ERR_BADOFFSET : Int := 4
def FDT_ERR_BADPATH : Int := 5
def FDT_ERR_BADSTATE : Int := 7
def FDT_ERR_TRUNCATED : Int := 8
def FDT_ERR_BADMAGIC : Int := 9
def FDT_ERR_BADVERSION : Int := 10
def FDT_ERR_BADSTRUCTURE : Int := 11
def FDT_ERR_BADLAYOUT : Int := 12
def FDT_ERR_INTERNAL : Int := 13

def INT_MAX : ℕ := 2 ^ 31 - 1

/-- The conversion to `unsigned`. -/
def cuint (n : Int) : ℕ := (n % 2 ^ 32).toNat

/-- The conversion to `int`. -/
def cint (n : Int) : Int := n.bmod (2 ^ 32)

def fdtAlign (n a : ℕ) : ℕ := (n + a - 1) / a * a

def fdtTagalign (n : ℕ) : ℕ := fdtAlign n FDT_TAGSIZE

inductive HeaderField
  | magic
  | totalsize
  | offDtStruct
  | offDtStrings
  | offMemRsvmap
  | version
  | lastCompVersion
  | bootCpuidPhys
  | sizeDtStrings
  | sizeDtStruct
deriving Repr, DecidableEq

def HeaderField.all : List HeaderField :=
  [.magic, .totalsize, .offDtStruct, .offDtStrings, .offMemRsvmap, .version, .lastCompVersion, .bootCpuidPhys,
    .sizeDtStrings, .sizeDtStruct]

def HeaderField.offset (f : HeaderField) : ℕ := 4 * HeaderField.all.idxOf f

def fdtHeader (fdt : List UInt8) (f : HeaderField) : ℕ := decode (cells fdt f.offset 4)

def fdtSetHeader (fdt : List UInt8) (f : HeaderField) (v : ℕ) : List UInt8 :=
  writeAt 0 fdt f.offset (encode 4 v)

inductive FdtTag
  | beginNode
  | endNode
  | prop
  | nop
  | stop
deriving Repr, DecidableEq

def FdtTag.word : FdtTag → ℕ
  | .beginNode => 0x1
  | .endNode => 0x2
  | .prop => 0x3
  | .nop => 0x4
  | .stop => 0x9

def FdtTag.ofWord (n : ℕ) : Option FdtTag :=
  [FdtTag.beginNode, .endNode, .prop, .nop, .stop].find? fun tag => tag.word = n

def nameBytes (name : Name) : List UInt8 := name.map fun c => UInt8.ofNat c.toNat

def bytesName (bytes : List UInt8) : Name := bytes.map fun b => Char.ofNat b.toNat

/-! The readers. -/

/-- A read through a pointer. -/
def load (fdt : List UInt8) (p len : ℕ) : Option (List UInt8) :=
  if p + len ≤ fdt.length then some (cells fdt p len) else none

theorem length_of_load {fdt bytes : List UInt8} {p len : ℕ} (loaded : load fdt p len = some bytes) :
    bytes.length = len := by
  rw [load] at loaded
  split at loaded
  · cases loaded
    exact length_cells ‹_›
  · cases loaded

def load32 (fdt : List UInt8) (p : ℕ) : Option ℕ := (load fdt p 4).map decode

/-- Where the pointer points to, or `none` for `NULL`. An offset above `INT_MAX` is a negative one of
the source. -/
def fdtOffsetPtr (fdt : List UInt8) (offset : Int) (len : ℕ) : Option ℕ :=
  let absoffset := cuint (offset + fdtHeader fdt .offDtStruct)
  if offset < 0 ∨ offset > INT_MAX then none
  else if absoffset < cuint offset ∨ cuint (absoffset + len) < absoffset ∨
      cuint (absoffset + len) > fdtHeader fdt .totalsize then none
  else if fdtHeader fdt .version ≥ 0x11 ∧
      (cuint (offset + len) < cuint offset ∨ cuint (offset + len) > fdtHeader fdt .sizeDtStruct) then none
  else some (fdtHeader fdt .offDtStruct + offset.toNat)

theorem fdtOffsetPtr_range {fdt : List UInt8} {offset : Int} {len p : ℕ}
    (found : fdtOffsetPtr fdt offset len = some p) : 0 ≤ offset ∧ offset ≤ INT_MAX := by
  simp only [fdtOffsetPtr] at found
  split at found
  · cases found
  · rename_i inside
    omega

/-- The loop over a node's name: the offset behind its NUL, or `none` where the tree ends before. -/
def skipName (fdt : List UInt8) (offset : Int) : Option (Option Int) :=
  match _found : fdtOffsetPtr fdt offset 1 with
  | none => some none
  | some p =>
      match load fdt p 1 with
      | none => none
      | some c => if c = [0] then some (some (offset + 1)) else skipName fdt (offset + 1)
termination_by (INT_MAX + 1 - offset).toNat
decreasing_by
  have := fdtOffsetPtr_range _found
  omega

/-- The offset behind a property's value. -/
def skipProp (fdt : List UInt8) (offset : Int) : Option (Option Int) :=
  match fdtOffsetPtr fdt offset 4 with
  | none => some none
  | some lenp => do
      let len ← load32 fdt lenp
      let sum := cuint (len + offset)
      if INT_MAX ≤ sum ∨ sum < cuint offset then some none
      else
        let offset := offset + (FDT_PROPERTY_SIZE - FDT_TAGSIZE : ℕ) + len
        -- Old trees align a long value to eight bytes.
        let padding := if fdtHeader fdt .version < 0x10 ∧ len ≥ 8 ∧ (offset - len) % 8 ≠ 0 then 4 else 0
        some (some (offset + padding))

def skipTag (fdt : List UInt8) (offset : Int) : FdtTag → Option (Option Int)
  | .beginNode => skipName fdt offset
  | .prop => skipProp fdt offset
  | .endNode | .nop | .stop => some (some offset)

/-- The tag and where the next one starts. A tree that ends early ends with `stop` and an error in
place of the offset. -/
def fdtNextTag (fdt : List UInt8) (startoffset : Int) : Option (FdtTag × Int) :=
  match fdtOffsetPtr fdt startoffset FDT_TAGSIZE with
  | none => some (.stop, -FDT_ERR_TRUNCATED)
  | some tagp =>
      match load32 fdt tagp with
      | none => none
      | some word =>
          match FdtTag.ofWord word with
          | none => some (.stop, -FDT_ERR_BADSTRUCTURE)
          | some tag =>
              match skipTag fdt (startoffset + FDT_TAGSIZE) tag with
              | none => none
              | some none => some (.stop, -FDT_ERR_BADSTRUCTURE)
              | some (some offset) =>
                  if fdtOffsetPtr fdt startoffset (cuint (offset - startoffset)) = none then
                    some (.stop, -FDT_ERR_BADSTRUCTURE)
                  else some (tag, fdtTagalign offset.toNat)

theorem skipName_lt {fdt : List UInt8} {offset next : Int} (skipped : skipName fdt offset = some (some next)) :
    offset < next := by
  fun_induction skipName fdt offset with
  | case1 | case2 => cases skipped
  | case3 =>
      cases skipped
      omega
  | case4 offset p found c loaded more ih =>
      have := ih skipped
      omega

theorem skipTag_le {fdt : List UInt8} {offset next : Int} {tag : FdtTag}
    (skipped : skipTag fdt offset tag = some (some next)) : offset ≤ next := by
  cases tag with
  | beginNode => exact (skipName_lt skipped).le
  | prop =>
      simp only [skipTag, skipProp] at skipped
      split at skipped
      · cases skipped
      · rename_i lenp found
        obtain ⟨len, loaded, skipped⟩ := Option.bind_eq_some_iff.mp skipped
        split at skipped
        · cases skipped
        · cases skipped
          split <;> omega
  | endNode | nop | stop =>
      cases skipped
      omega

theorem le_fdtTagalign (n : ℕ) : n ≤ fdtTagalign n := by
  simp only [fdtTagalign, fdtAlign, FDT_TAGSIZE]
  omega

/-- Each tag but the last lies inside the tree, and the next one behind it. -/
theorem fdtNextTag_lt {fdt : List UInt8} {start next : Int} {tag : FdtTag}
    (read : fdtNextTag fdt start = some (tag, next)) (more : tag ≠ .stop) :
    0 ≤ start ∧ start ≤ INT_MAX ∧ start < next := by
  simp only [fdtNextTag] at read
  split at read
  · cases read
    exact absurd rfl more
  · rename_i tagp found
    have range := fdtOffsetPtr_range found
    split at read
    · cases read
    · split at read
      · cases read
        exact absurd rfl more
      · split at read
        · cases read
        · cases read
          exact absurd rfl more
        · rename_i offset skipped
          have behind := skipTag_le skipped
          split at read
          · cases read
            exact absurd rfl more
          · cases read
            have := le_fdtTagalign offset.toNat
            simp only [FDT_TAGSIZE] at behind
            omega

def fdtCheckNodeOffset (fdt : List UInt8) (offset : Int) : Option Int :=
  if offset < 0 ∨ offset % 4 ≠ 0 then some (-FDT_ERR_BADOFFSET)
  else do
    let (tag, next) ← fdtNextTag fdt offset
    return if tag ≠ .beginNode then -FDT_ERR_BADOFFSET else next

def fdtCheckPropOffset (fdt : List UInt8) (offset : Int) : Option Int :=
  if offset < 0 ∨ offset % 4 ≠ 0 then some (-FDT_ERR_BADOFFSET)
  else do
    let (tag, next) ← fdtNextTag fdt offset
    return if tag ≠ .prop then -FDT_ERR_BADOFFSET else next

/-- The loop of `fdt_next_node`: the offset and the depth it leaves. -/
def nextNodeLoop (fdt : List UInt8) (offset depth : Int) : Option (Int × Int) :=
  match _read : fdtNextTag fdt offset with
  | none => none
  | some (.beginNode, _) => some (offset, depth + 1)
  | some (.prop, next) | some (.nop, next) => nextNodeLoop fdt next depth
  | some (.endNode, next) =>
      if depth - 1 < 0 then some (next, depth - 1) else nextNodeLoop fdt next (depth - 1)
  | some (.stop, next) => some (if next ≥ 0 then -FDT_ERR_NOTFOUND else next, depth)
termination_by (INT_MAX + 1 - offset).toNat
decreasing_by
  all_goals
    have := fdtNextTag_lt _read (by simp)
    omega

/-- `fdt_next_node` with a depth, from a node on or, for an offset below zero, from the start. -/
def fdtNextNode (fdt : List UInt8) (offset depth : Int) : Option (Int × Int) :=
  match (if offset ≥ 0 then fdtCheckNodeOffset fdt offset else some 0) with
  | none => none
  | some next => if next < 0 then some (next, depth) else nextNodeLoop fdt next depth

theorem nextNodeLoop_le {fdt : List UInt8} {offset depth next after : Int}
    (walked : nextNodeLoop fdt offset depth = some (next, after)) : next < 0 ∨ offset ≤ next := by
  fun_induction nextNodeLoop fdt offset depth with
  | case1 => cases walked
  | case2 =>
      cases walked
      omega
  | case3 offset depth tag read ih | case4 offset depth tag read ih =>
      have := (fdtNextTag_lt read (by simp)).2.2
      have := ih walked
      omega
  | case5 offset depth tag read up =>
      have := (fdtNextTag_lt read (by simp)).2.2
      cases walked
      omega
  | case6 offset depth tag read up ih =>
      have := (fdtNextTag_lt read (by simp)).2.2
      have := ih walked
      omega
  | case7 =>
      cases walked
      simp only [FDT_ERR_NOTFOUND]
      split <;> omega

theorem fdtCheckNodeOffset_lt {fdt : List UInt8} {offset next : Int}
    (checked : fdtCheckNodeOffset fdt offset = some next) : next < 0 ∨ offset < next ∧ offset ≤ INT_MAX := by
  simp only [fdtCheckNodeOffset, FDT_ERR_BADOFFSET] at checked
  split at checked
  · cases checked
    omega
  · obtain ⟨⟨tag, behind⟩, read, checked⟩ := Option.bind_eq_some_iff.mp checked
    split at checked
    · cases checked
      omega
    · rename_i node
      cases checked
      have := fdtNextTag_lt read (by simp_all)
      omega

theorem fdtNextNode_lt {fdt : List UInt8} {offset depth next after : Int}
    (walked : fdtNextNode fdt offset depth = some (next, after)) :
    next < 0 ∨ offset < next ∧ offset ≤ INT_MAX := by
  rw [fdtNextNode] at walked
  split at walked
  · cases walked
  · rename_i first checked
    split at walked
    · cases walked
      omega
    · have later := nextNodeLoop_le walked
      split at checked
      · have := fdtCheckNodeOffset_lt checked
        omega
      · cases checked
        omega

def fdtFirstSubnode (fdt : List UInt8) (offset : Int) : Option Int := do
  let (offset, depth) ← fdtNextNode fdt offset 0
  return if offset < 0 ∨ depth ≠ 1 then -FDT_ERR_NOTFOUND else offset

/-- The loop of `fdt_next_subnode`. -/
def nextSubnodeLoop (fdt : List UInt8) (offset depth : Int) : Option Int :=
  match _walked : fdtNextNode fdt offset depth with
  | none => none
  | some (next, depth) =>
      if next < 0 ∨ depth < 1 then some (-FDT_ERR_NOTFOUND)
      else if depth > 1 then nextSubnodeLoop fdt next depth
      else some next
termination_by (INT_MAX + 1 - offset).toNat
decreasing_by
  have := fdtNextNode_lt _walked
  omega

/-- The depth of the next subnode is that of the last. -/
def fdtNextSubnode (fdt : List UInt8) (offset : Int) : Option Int := nextSubnodeLoop fdt offset 1

/-- The string a pointer points to. -/
def loadString (fdt : List UInt8) (p : ℕ) : Option (List UInt8) :=
  let s := fdt.drop p
  if 0 ∈ s then some (s.takeWhile (· ≠ 0)) else none

def fdtRoProbe (fdt : List UInt8) : Int :=
  let totalsize := fdtHeader fdt .totalsize
  let state : Int :=
    if fdtHeader fdt .magic = FDT_MAGIC then
      if fdtHeader fdt .version < FDT_FIRST_SUPPORTED_VERSION then -FDT_ERR_BADVERSION
      else if fdtHeader fdt .lastCompVersion > FDT_LAST_SUPPORTED_VERSION then -FDT_ERR_BADVERSION
      else 0
    else if fdtHeader fdt .magic = FDT_SW_MAGIC then
      if fdtHeader fdt .sizeDtStruct = 0 then -FDT_ERR_BADSTATE else 0
    else -FDT_ERR_BADMAGIC
  if state < 0 then state
  else if totalsize < INT_MAX then totalsize
  else -FDT_ERR_TRUNCATED

def fdtGetName (fdt : List UInt8) (node : Int) : Option (Except Int (List UInt8)) :=
  if fdtRoProbe fdt < 0 then some (.error (fdtRoProbe fdt))
  else do
    let next ← fdtCheckNodeOffset fdt node
    if next < 0 then some (.error next)
    else
      let name ← loadString fdt (fdtHeader fdt .offDtStruct + node.toNat + FDT_TAGSIZE)
      if fdtHeader fdt .version < 0x10 then
        -- Old trees name a node by its path.
        if 0x2f ∈ name then some (.ok (name.reverse.takeWhile (· ≠ 0x2f)).reverse)
        else some (.error (-FDT_ERR_BADSTRUCTURE))
      else some (.ok name)

/-- The string at an offset in the table: how long it may be is what the table or the tree has left. -/
def fdtGetString (fdt : List UInt8) (stroffset : Int) : Option (Except Int (List UInt8)) :=
  let totalsize := fdtRoProbe fdt
  let absoffset := cuint (stroffset + fdtHeader fdt .offDtStrings)
  let table := fdtHeader fdt .sizeDtStrings
  let string (len : ℕ) : Option (Except Int (List UInt8)) := do
    let s ← load fdt absoffset len
    return if 0 ∈ s then .ok (s.takeWhile (· ≠ 0)) else .error (-FDT_ERR_TRUNCATED)
  if totalsize < 0 then some (.error totalsize)
  else if absoffset ≥ totalsize.toNat then some (.error (-FDT_ERR_BADOFFSET))
  else
    let len := totalsize.toNat - absoffset
    if fdtHeader fdt .magic = FDT_MAGIC then
      if stroffset < 0 then some (.error (-FDT_ERR_BADOFFSET))
      else if fdtHeader fdt .version ≥ 17 then
        if stroffset.toNat ≥ table then some (.error (-FDT_ERR_BADOFFSET))
        else string (min len (table - stroffset.toNat))
      else string len
    else if fdtHeader fdt .magic = FDT_SW_MAGIC then
      if stroffset ≥ 0 ∨ (-stroffset).toNat > table then some (.error (-FDT_ERR_BADOFFSET))
      else string (min len (-stroffset).toNat)
    else some (.error (-FDT_ERR_INTERNAL))

def fdtStringEq (fdt : List UInt8) (stroffset : Int) (s : List UInt8) : Option Bool := do
  return match ← fdtGetString fdt stroffset with
    | .ok string => string = s
    | .error _ => false

/-- `nextprop_`: where the next property starts, behind tags without meaning. -/
def nextprop (fdt : List UInt8) (offset : Int) : Option Int :=
  match _read : fdtNextTag fdt offset with
  | none => none
  | some (.stop, next) => some (if next ≥ 0 then -FDT_ERR_BADSTRUCTURE else next)
  | some (.prop, _) => some offset
  | some (.nop, next) => nextprop fdt next
  | some (.beginNode, _) | some (.endNode, _) => some (-FDT_ERR_NOTFOUND)
termination_by (INT_MAX + 1 - offset).toNat
decreasing_by
  have := fdtNextTag_lt _read (by simp)
  omega

def fdtFirstPropertyOffset (fdt : List UInt8) (node : Int) : Option Int := do
  let offset ← fdtCheckNodeOffset fdt node
  if offset < 0 then some offset else nextprop fdt offset

def fdtNextPropertyOffset (fdt : List UInt8) (offset : Int) : Option Int := do
  let offset ← fdtCheckPropOffset fdt offset
  if offset < 0 then some offset else nextprop fdt offset

theorem nextprop_le {fdt : List UInt8} {offset next : Int} (found : nextprop fdt offset = some next) :
    next < 0 ∨ offset ≤ next := by
  fun_induction nextprop fdt offset with
  | case1 => cases found
  | case2 =>
      cases found
      simp only [FDT_ERR_BADSTRUCTURE]
      split <;> omega
  | case3 =>
      cases found
      omega
  | case4 offset next' read ih =>
      have := (fdtNextTag_lt read (by simp)).2.2
      have := ih found
      omega
  | case5 | case6 =>
      cases found
      simp only [FDT_ERR_NOTFOUND]
      omega

theorem fdtNextPropertyOffset_lt {fdt : List UInt8} {offset next : Int}
    (found : fdtNextPropertyOffset fdt offset = some next) : next < 0 ∨ offset < next ∧ offset ≤ INT_MAX := by
  obtain ⟨first, checked, found⟩ := Option.bind_eq_some_iff.mp found
  simp only [fdtCheckPropOffset, FDT_ERR_BADOFFSET] at checked
  split at found
  · cases found
    omega
  · have later := nextprop_le found
    split at checked
    · cases checked
      omega
    · obtain ⟨⟨tag, behind⟩, read, checked⟩ := Option.bind_eq_some_iff.mp checked
      split at checked
      · cases checked
        omega
      · cases checked
        have := fdtNextTag_lt read (by simp_all)
        omega

/-- The loop of `fdt_get_property_namelen_`: the property's offset. -/
def getPropertyLoop (fdt : List UInt8) (name : List UInt8) (offset : Int) : Option (Except Int Int) :=
  if offset < 0 then some (.error offset)
  else
    match fdtCheckPropOffset fdt offset with
    | none => none
    | some checked =>
        if checked < 0 then some (.error (-FDT_ERR_INTERNAL))
        else
          match load32 fdt (fdtHeader fdt .offDtStruct + offset.toNat + 8) with
          | none => none
          | some nameoff =>
              match fdtStringEq fdt (cint nameoff) name with
              | none => none
              | some true => some (.ok offset)
              | some false =>
                  match _found : fdtNextPropertyOffset fdt offset with
                  | none => none
                  | some next => getPropertyLoop fdt name next
termination_by if offset < 0 then 0 else (INT_MAX + 1 - offset).toNat + 1
decreasing_by
  have := fdtNextPropertyOffset_lt _found
  rw [if_neg ‹¬ offset < 0›]
  split <;> omega

/-- The value: where it starts and how long it is. -/
def fdtGetprop (fdt : List UInt8) (node : Int) (name : List UInt8) : Option (Except Int (ℕ × Int)) := do
  match ← getPropertyLoop fdt name (← fdtFirstPropertyOffset fdt node) with
  | .error errno => return .error errno
  | .ok offset =>
      let prop := fdtHeader fdt .offDtStruct + offset.toNat
      let len ← load32 fdt (prop + 4)
      let data := prop + FDT_PROPERTY_SIZE
      if fdtHeader fdt .version < 0x10 ∧ (offset + FDT_PROPERTY_SIZE) % 8 ≠ 0 ∧ len ≥ 8 then
        return .ok (data + 4, cint len)
      else return .ok (data, cint len)

/-- A name without a unit address also stands for a node that has one. -/
def fdtNodenameMatches (fdt : List UInt8) (node : Int) (s : List UInt8) : Option Bool := do
  match ← fdtGetName fdt node with
  | .error _ => return false
  | .ok name =>
      return s.isPrefixOf name &&
        match name.drop s.length with
        | [] => true
        | c :: _ => !s.contains 0x40 && c = 0x40

/-- The loop of `fdt_subnode_offset_namelen`. -/
def subnodeLoop (fdt : List UInt8) (name : List UInt8) (offset depth : Int) : Option Int :=
  if offset < 0 ∨ depth < 0 then some (if depth < 0 then -FDT_ERR_NOTFOUND else offset)
  else
    match (if depth = 1 then fdtNodenameMatches fdt offset name else some false) with
    | none => none
    | some true => some offset
    | some false =>
        match _walked : fdtNextNode fdt offset depth with
        | none => none
        | some (next, depth) => subnodeLoop fdt name next depth
termination_by if offset < 0 then 0 else (INT_MAX + 1 - offset).toNat + 1
decreasing_by
  have := fdtNextNode_lt _walked
  rw [if_neg (show ¬ offset < 0 by omega)]
  split <;> omega

def fdtSubnodeOffset (fdt : List UInt8) (parent : Int) (name : List UInt8) : Option Int :=
  if fdtRoProbe fdt < 0 then some (fdtRoProbe fdt) else subnodeLoop fdt name parent 0

/-- The loop of `fdt_path_offset_namelen` over the names of a path. -/
def pathLoop (fdt : List UInt8) : List (List UInt8) → Int → Option Int
  | [], offset => some offset
  | name :: rest, offset =>
      match fdtSubnodeOffset fdt offset name with
      | none => none
      | some next => if next < 0 then some next else pathLoop fdt rest next

/-- The path is absolute, so that no alias is looked up. -/
def fdtPathOffset (fdt : List UInt8) (path : List UInt8) : Option Int :=
  if fdtRoProbe fdt < 0 then some (fdtRoProbe fdt)
  else if path = [] then some (-FDT_ERR_BADPATH)
  else pathLoop fdt ((path.splitOn 0x2f).filter (· ≠ [])) 0

/-- A string is compared with its NUL, which may stand behind the list. -/
def fdtStringlistContains (fdt : List UInt8) (p : ℕ) (listlen : Int) (str : List UInt8) : Option Bool :=
  if listlen < str.length then some false
  else
    match load fdt p (str.length + 1) with
    | none => none
    | some s =>
        if s = str ++ [0] then some true
        else
          match _loaded : load fdt p listlen.toNat with
          | none => none
          | some list =>
              if _more : 0 ∈ list then
                let skipped := (list.takeWhile (· ≠ 0)).length + 1
                fdtStringlistContains fdt (p + skipped) (listlen - skipped) str
              else some false
termination_by listlen.toNat
decreasing_by
  have := List.length_pos_of_mem _more
  have := length_of_load _loaded
  omega

def fdtNodeCheckCompatible (fdt : List UInt8) (node : Int) (compatible : List UInt8) : Option Int := do
  match ← fdtGetprop fdt node (nameBytes "compatible".toList) with
  | .error errno => return errno
  | .ok (prop, len) => return if ← fdtStringlistContains fdt prop len compatible then 0 else 1

/-! What a tree that is read has to pass. -/

def checkOff (hdrsize totalsize off : ℕ) : Bool := off ≥ hdrsize && off ≤ totalsize

def checkBlock (hdrsize totalsize base size : ℕ) : Bool :=
  checkOff hdrsize totalsize base && !(cuint (base + size) < base) && checkOff hdrsize totalsize (cuint (base + size))

def fdtHeaderSize (version : ℕ) : ℕ :=
  if version ≤ 1 then 28 else if version ≤ 2 then 32 else if version ≤ 16 then 36 else 40

def fdtCheckHeader (fdt : List UInt8) : Int :=
  let version := fdtHeader fdt .version
  let totalsize := fdtHeader fdt .totalsize
  let hdrsize := fdtHeaderSize version
  if fdtHeader fdt .magic ≠ FDT_MAGIC then -FDT_ERR_BADMAGIC
  else if version < FDT_FIRST_SUPPORTED_VERSION ∨ fdtHeader fdt .lastCompVersion > FDT_LAST_SUPPORTED_VERSION then
    -FDT_ERR_BADVERSION
  else if version < fdtHeader fdt .lastCompVersion then -FDT_ERR_BADVERSION
  else if totalsize < hdrsize ∨ totalsize > INT_MAX then -FDT_ERR_TRUNCATED
  else if !checkOff hdrsize totalsize (fdtHeader fdt .offMemRsvmap) then -FDT_ERR_TRUNCATED
  else if version < 17 ∧ !checkOff hdrsize totalsize (fdtHeader fdt .offDtStruct) then -FDT_ERR_TRUNCATED
  else if version ≥ 17 ∧
      !checkBlock hdrsize totalsize (fdtHeader fdt .offDtStruct) (fdtHeader fdt .sizeDtStruct) then
    -FDT_ERR_TRUNCATED
  else if !checkBlock hdrsize totalsize (fdtHeader fdt .offDtStrings) (fdtHeader fdt .sizeDtStrings) then
    -FDT_ERR_TRUNCATED
  else 0

def fdtutilCheck (fdt : List UInt8) : Int :=
  if fdt.length < FDT_HEADER_SIZE ∨ fdtCheckHeader fdt ≠ 0 then -EINVAL
  else if fdtHeader fdt .totalsize ≤ fdt.length then 0
  else -EINVAL

end Kmorph.Fdt
