import Kmorph.FdtLayout

/-!
The readers of a flattened tree walk over its tokens: each loop over tags is a scan
of the tokens that the structure block is read as, and the tags without meaning are
passed over on the way.
-/

namespace Kmorph.Fdt

open BigEndian Brackets Extents

section Walk

variable {fdt : List UInt8} {offset : ℕ} {start : Int} {tokens rest : List FdtToken} {name : Name}

/-- Where `fdt_next_node` has come to, and at what depth. -/
def Reached (fdt : List UInt8) : Scanned Name (Name × List UInt8) → Int × Int → Prop
  | .found depth name rest, (next, after) => after = depth ∧ Starts fdt next (.enter name) rest
  | .left _, (_, after) => after = -1
  | .ended _, (next, after) => next = -FDT_ERR_NOTFOUND ∧ 0 ≤ after

theorem Laid.nextNodeLoop (laid : Laid fdt offset tokens) (depth : ℕ) :
    ∃ out, Fdt.nextNodeLoop fdt offset depth = some out ∧ Reached fdt (scan (fun _ _ => true) depth tokens) out := by
  induction laid generalizing depth with
  | @stop offset placed =>
      rw [Fdt.nextNodeLoop, placed.nextTag]
      refine ⟨_, rfl, if_pos (by omega), by omega⟩
  | @nop offset tokens placed rest ih =>
      rw [Fdt.nextNodeLoop, placed.nextTag]
      exact ih depth
  | @cons offset token tokens piece placed means rest ih =>
      rw [Fdt.nextNodeLoop, placed.nextTag, means.tag]
      cases token with
      | enter name => exact ⟨_, rfl, rfl, placed.starts means rest⟩
      | item prop => exact ih depth
      | leave =>
          cases depth with
          | zero => exact ⟨_, rfl, rfl⟩
          | succ depth =>
              simp only [tokenTag, scan]
              rw [if_neg (by omega), show ((depth + 1 : ℕ) : Int) - 1 = depth by omega]
              exact ih depth

theorem Starts.checkNodeOffset (starts : Starts fdt start (.enter name) rest) :
    ∃ next : ℕ, fdtCheckNodeOffset fdt start = some (next : Int) ∧ Laid fdt next rest := by
  obtain ⟨inside, aligned, next, read, laid⟩ := starts.nextTag
  refine ⟨next, ?_, laid⟩
  rw [fdtCheckNodeOffset, if_neg (by omega), read]
  rfl

theorem Starts.nextNode (starts : Starts fdt start (.enter name) rest) (depth : ℕ) :
    ∃ out, fdtNextNode fdt start depth = some out ∧ Reached fdt (scan (fun _ _ => true) depth rest) out := by
  obtain ⟨next, checked, laid⟩ := starts.checkNodeOffset
  rw [fdtNextNode, if_pos starts.nextTag.1, checked]
  simp only
  rw [if_neg (by omega)]
  exact laid.nextNodeLoop depth

/-- The node that a search has come to, or that there is none. -/
def Found (fdt : List UInt8) : Scanned Name (Name × List UInt8) → Int → Prop
  | .found _ name rest, next => Starts fdt next (.enter name) rest
  | .left _, next | .ended _, next => next = -FDT_ERR_NOTFOUND

theorem Starts.nextSubnodeLoop (starts : Starts fdt start (.enter name) rest) (depth : ℕ) :
    ∃ next, Fdt.nextSubnodeLoop fdt start depth = some next ∧
      Found fdt (scan (fun depth _ => depth ≤ 1) depth rest) next := by
  -- The next group always starts in a shorter rest.
  induction size : rest.length using Nat.strong_induction_on generalizing rest name start depth with
  | _ n ih =>
    obtain ⟨⟨next, after⟩, walked, reached⟩ := starts.nextNode depth
    rw [Fdt.nextSubnodeLoop, walked, scan_step fun depth _ => decide (depth ≤ 1)]
    cases scanned : scan (fun _ _ => true) depth rest with
    | found deeper child behind =>
        rw [scanned] at reached
        obtain ⟨rfl, found⟩ := reached
        obtain ⟨inner, suffix⟩ := scan_found scanned
        have shorter := suffix.length_le
        have inside := found.nextTag.1
        rw [List.length_cons] at shorter
        simp only
        rw [if_neg (by omega)]
        by_cases stops : deeper ≤ 1
        · rw [if_neg (by omega), if_pos (by simpa using stops)]
          exact ⟨next, rfl, found⟩
        · rw [if_pos (by omega), if_neg (by simpa using stops)]
          exact ih behind.length (by omega) found deeper rfl
    | left behind =>
        rw [scanned] at reached
        obtain rfl : after = -1 := reached
        exact ⟨_, by simp, rfl⟩
    | ended deeper =>
        rw [scanned] at reached
        obtain ⟨rfl, -⟩ := reached
        exact ⟨_, by simp [FDT_ERR_NOTFOUND], rfl⟩

/-- The names that `fdt_subnode_offset` looks for are tested one level below the parent. -/
theorem Starts.subnodeLoop {wanted : List UInt8} {eq : Name → Bool}
    (matched : ∀ start name rest, Starts fdt start (.enter name) rest →
      fdtNodenameMatches fdt start wanted = some (eq name))
    (starts : Starts fdt start (.enter name) rest) (depth : ℕ) (missed : ¬ (depth = 1 ∧ eq name)) :
    ∃ next, Fdt.subnodeLoop fdt wanted start depth = some next ∧
      Found fdt (scan (fun depth name => depth = 1 && eq name) depth rest) next := by
  induction size : rest.length using Nat.strong_induction_on generalizing rest name start depth with
  | _ n ih =>
    have inside := starts.nextTag.1
    have tested : (if (depth : Int) = 1 then fdtNodenameMatches fdt start wanted else some false) = some false := by
      by_cases one : depth = 1
      · rw [if_pos (by omega), matched start name rest starts]
        simpa [one] using missed
      · rw [if_neg (by omega)]
    obtain ⟨⟨next, after⟩, walked, reached⟩ := starts.nextNode depth
    rw [Fdt.subnodeLoop, if_neg (by omega), tested]
    simp only
    rw [walked, scan_step fun depth name => decide (depth = 1) && eq name]
    cases scanned : scan (fun _ _ => true) depth rest with
    | found deeper child behind =>
        rw [scanned] at reached
        obtain ⟨rfl, found⟩ := reached
        obtain ⟨inner, suffix⟩ := scan_found scanned
        have shorter := suffix.length_le
        rw [List.length_cons] at shorter
        simp only
        by_cases hit : deeper = 1 ∧ eq child
        · have inside := found.nextTag.1
          refine ⟨next, ?_, ?_⟩
          · rw [Fdt.subnodeLoop, if_neg (by omega), if_pos (by omega), matched next child behind found, hit.2]
          · rw [if_pos (by simpa using hit)]
            exact found
        · rw [if_neg (by simpa using hit)]
          exact ih behind.length (by omega) found deeper hit rfl
    | left behind =>
        rw [scanned] at reached
        obtain rfl : after = -1 := reached
        refine ⟨-FDT_ERR_NOTFOUND, ?_, rfl⟩
        simp only
        rw [Fdt.subnodeLoop, if_pos (by omega), if_pos (by omega)]
    | ended deeper =>
        rw [scanned] at reached
        obtain ⟨rfl, above⟩ := reached
        refine ⟨-FDT_ERR_NOTFOUND, ?_, rfl⟩
        simp only
        rw [Fdt.subnodeLoop, if_pos (.inl (by simp [FDT_ERR_NOTFOUND])), if_neg (by omega)]

end Walk

/-! Names. -/

section Names

variable {name s : Name} {c d : Char}

theorem CString.bytesName_nameBytes (string : CString name) : bytesName (nameBytes name) = name := by
  have back (c : Char) (member : c ∈ name) : Char.ofNat (UInt8.ofNat c.toNat).toNat = id c := by
    rw [UInt8.toNat_ofNat', Nat.mod_eq_of_lt (string c member).2, Char.ofNat_toNat, id]
  rw [bytesName, nameBytes, List.map_map]
  exact (List.map_congr_left back).trans (List.map_id name)

theorem CString.nameBytes_inj (left : CString name) (right : CString s) :
    nameBytes name = nameBytes s ↔ name = s := by
  constructor
  · intro same
    rw [← left.bytesName_nameBytes, same, right.bytesName_nameBytes]
  · rintro rfl
    rfl

theorem CString.isPrefixOf (left : CString s) (right : CString name) :
    (nameBytes s).isPrefixOf (nameBytes name) = s.isPrefixOf name := by
  rw [Bool.eq_iff_iff, List.isPrefixOf_iff_prefix, List.isPrefixOf_iff_prefix]
  constructor
  · intro found
    rw [← left.bytesName_nameBytes, ← right.bytesName_nameBytes]
    exact found.map _
  · exact fun found => found.map _

theorem byte_at (small : c.toNat < 256) : UInt8.ofNat c.toNat = 0x40 ↔ c = '@' := by
  constructor
  · intro same
    have value := congrArg UInt8.toNat same
    rw [UInt8.toNat_ofNat', Nat.mod_eq_of_lt small] at value
    exact Char.toNat_inj.mp value
  · rintro rfl
    rfl

theorem CString.contains_at (string : CString s) : (nameBytes s).contains 0x40 = s.contains '@' := by
  rw [Bool.eq_iff_iff, List.contains_iff_mem, List.contains_iff_mem, nameBytes, List.mem_map]
  constructor
  · rintro ⟨c, member, same⟩
    exact (byte_at (string c member).2).mp same ▸ member
  · exact fun member => ⟨'@', member, rfl⟩

end Names

/-! What `fdtutil_check` accepts and `fdt_ro_probe_` lets pass. -/

structure Sound (fdt : List UInt8) : Prop where
  accepted : fdtutilCheck fdt = 0
  small : fdtHeader fdt .totalsize < INT_MAX

section Nodes

variable {fdt : List UInt8} {start : Int} {rest : List FdtToken} {name s : Name}

theorem load_append {p len : ℕ} {first second : List UInt8} (loaded : load fdt p len = some (first ++ second)) :
    load fdt p first.length = some first ∧ load fdt (p + first.length) second.length = some second := by
  have total := length_of_load loaded
  rw [List.length_append] at total
  rw [load] at loaded
  split at loaded
  · have whole := Option.some.inj loaded
    have front := @cells_cells _ fdt len p 0 first.length (by omega)
    have back := @cells_cells _ fdt len p first.length second.length (by omega)
    rw [whole, Nat.add_zero] at front
    rw [whole] at back
    rw [load, if_pos (by omega), load, if_pos (by omega), ← front, ← back]
    simp [cells]
  · cases loaded

theorem takeWhile_nul {string more : List UInt8} (noNul : 0 ∉ string) :
    (string ++ 0 :: more).takeWhile (· ≠ 0) = string := by
  have kept : ∀ b ∈ string, (decide (b ≠ 0)) = true := by
    intro b member
    rw [decide_eq_true_eq]
    rintro rfl
    exact noNul member
  rw [List.takeWhile_append_of_pos kept]
  simp

theorem loadString_of_load {p len : ℕ} {string more : List UInt8} (loaded : load fdt p len = some (string ++ 0 :: more))
    (noNul : 0 ∉ string) : loadString fdt p = some string := by
  rw [load] at loaded
  split at loaded
  · have taken := Option.some.inj loaded
    rw [cells] at taken
    have whole : fdt.drop p = string ++ 0 :: (more ++ (fdt.drop p).drop len) := by
      rw [← List.cons_append, ← List.append_assoc, ← taken, List.take_append_drop]
    rw [loadString, whole, if_pos (by simp), takeWhile_nul noNul]
  · cases loaded

theorem Sound.roProbe (sound : Sound fdt) : fdtRoProbe fdt = fdtHeader fdt .totalsize := by
  have checked := fdtutilCheck_checked sound.accepted
  have first := checked.first
  have last := checked.last
  have small := sound.small
  simp only [fdtRoProbe, checked.magic, if_true]
  rw [if_neg (show ¬ fdtHeader fdt .version < _ by omega), if_neg (show ¬ fdtHeader fdt .lastCompVersion > _ by omega),
    if_neg (by decide), if_pos small]

theorem Sound.roProbe_nonneg (sound : Sound fdt) : ¬ fdtRoProbe fdt < 0 := by
  rw [sound.roProbe]
  omega

/-- The last name of a path. -/
theorem lastName_path {dir : List UInt8} {last : List UInt8} (plain : 0x2f ∉ last) :
    ((dir ++ 0x2f :: last).reverse.takeWhile (· ≠ 0x2f)).reverse = last := by
  have kept : ∀ b ∈ last.reverse, (decide (b ≠ 0x2f)) = true := by
    intro b member
    rw [decide_eq_true_eq]
    rintro rfl
    exact plain (List.mem_reverse.mp member)
  rw [List.reverse_append, List.reverse_cons, List.append_assoc, List.takeWhile_append_of_pos kept]
  simp

theorem slash_of_byte {name : Name} (string : CString name) (plain : '/' ∉ name) : 0x2f ∉ nameBytes name := by
  intro member
  obtain ⟨c, inside, same⟩ := List.mem_map.mp member
  have value := congrArg UInt8.toNat same
  rw [UInt8.toNat_ofNat', Nat.mod_eq_of_lt (string c inside).2] at value
  have slash : c = '/' := Char.toNat_inj.mp value
  exact plain (slash ▸ inside)

theorem Starts.cstring (starts : Starts fdt start (.enter name) rest) : CString name := by
  obtain ⟨offset, piece, -, placed, means, -⟩ := starts
  cases piece with
  | node label =>
      have string : CString label := placed.fits
      have named : Labels fdt label name := means
      rw [Labels] at named
      split at named
      · obtain ⟨-, dir, rfl⟩ := named
        exact fun c member => string c (by simp [member])
      · exact named ▸ string
  | prop | leave | nop | stop => exact means.elim

theorem Starts.getName (sound : Sound fdt) (starts : Starts fdt start (.enter name) rest) :
    fdtGetName fdt start = some (.ok (nameBytes name)) := by
  have string := starts.cstring
  obtain ⟨next, checked, -⟩ := starts.checkNodeOffset
  obtain ⟨offset, piece, rfl, placed, means, -⟩ := starts
  cases piece with
  | node label =>
      have behind := placed.holds.right
      rw [length_encode, Piece.body, pad, List.append_assoc, List.singleton_append] at behind
      have loaded := loadString_of_load behind.load (CString.noNul placed.fits)
      have named : Labels fdt label name := means
      rw [fdtGetName, if_neg sound.roProbe_nonneg, checked]
      simp only [Option.bind_eq_bind, Option.bind_some]
      rw [if_neg (by omega), Int.toNat_natCast, FDT_TAGSIZE, Nat.add_assoc, loaded]
      simp only [Option.bind_some]
      rw [Labels] at named
      split at named
      · rename_i old
        obtain ⟨plain, dir, rfl⟩ := named
        have path : nameBytes (dir ++ '/' :: name) = nameBytes dir ++ 0x2f :: nameBytes name := by
          simp [nameBytes]
        rw [if_pos old, path, if_pos (by simp), lastName_path (slash_of_byte string plain)]
      · rename_i current
        rw [if_neg current, named]
  | prop | leave | nop | stop => exact means.elim

theorem Starts.nodenameMatches (sound : Sound fdt) (string : CString s) (starts : Starts fdt start (.enter name) rest) :
    fdtNodenameMatches fdt start (nameBytes s) = some (fdtNodenameEq name s) := by
  have valid := starts.cstring
  rw [fdtNodenameMatches, starts.getName sound]
  simp only [Option.bind_eq_bind, Option.bind_some, Option.pure_def, Option.some.injEq]
  rw [fdtNodenameEq, string.isPrefixOf valid, string.contains_at, length_nameBytes, nameBytes, ← List.map_drop]
  cases dropped : name.drop s.length with
  | nil => rfl
  | cons c after =>
      have member : c ∈ name := List.drop_subset s.length name (by simp [dropped])
      have same := byte_at (valid c member).2
      simp [same]

end Nodes

/-! Properties. -/

section Properties

variable {fdt : List UInt8} {offset : ℕ} {start : Int} {tokens rest after : List FdtToken}
  {prop : Name × List UInt8} {props : List (Name × List UInt8)} {wanted : Name}

theorem Starts.checkPropOffset (starts : Starts fdt start (.item prop) rest) :
    ∃ next : ℕ, fdtCheckPropOffset fdt start = some (next : Int) ∧ Laid fdt next rest := by
  obtain ⟨inside, aligned, next, read, laid⟩ := starts.nextTag
  refine ⟨next, ?_, laid⟩
  rw [fdtCheckPropOffset, if_neg (by omega), read]
  rfl

theorem StringAt.getString (sound : Sound fdt) {nameoff : ℕ} {name : Name} (stands : StringAt fdt nameoff name)
    (string : CString name) : fdtGetString fdt nameoff = some (.ok (nameBytes name)) := by
  have checked := fdtutilCheck_checked sound.accepted
  have inside := checked.strings
  have total := checked.total
  have small := sound.small
  obtain ⟨more, stands⟩ := stands
  have room : nameoff < stringsSize fdt := by
    have length := congrArg List.length stands
    simp only [List.length_append, List.length_cons, cells, List.length_take] at length
    omega
  simp only [INT_MAX] at small
  have reach : fdtHeader fdt .offDtStrings + stringsSize fdt ≤ fdtHeader fdt .totalsize := by
    rw [stringsSize] at room ⊢
    by_cases current : 17 ≤ fdtHeader fdt .version
    · rw [if_pos current]
      exact inside
    · rw [if_neg current] at room ⊢
      omega
  have absolute : cuint ((nameoff : Int) + fdtHeader fdt .offDtStrings) = fdtHeader fdt .offDtStrings + nameoff := by
    rw [cuint]
    omega
  have loaded : load fdt (fdtHeader fdt .offDtStrings + nameoff) (stringsSize fdt - nameoff) =
      some (nameBytes name ++ 0 :: more) := by
    rw [load, if_pos (by omega), ← stands, List.append_assoc, List.singleton_append]
  have read : ((load fdt (fdtHeader fdt .offDtStrings + nameoff) (stringsSize fdt - nameoff)).bind fun s =>
      some (if 0 ∈ s then Except.ok (s.takeWhile (· ≠ 0)) else .error (-FDT_ERR_TRUNCATED))) =
        some (.ok (nameBytes name)) := by
    rw [loaded, Option.bind_some, if_pos (by simp), takeWhile_nul string.noNul]
  simp only [fdtGetString, sound.roProbe, checked.magic, absolute, Int.toNat_natCast, if_true]
  rw [if_neg (by omega), if_neg (by omega), if_neg (by omega)]
  by_cases current : 17 ≤ fdtHeader fdt .version
  · rw [stringsSize, if_pos current] at read room
    rw [if_pos current, if_neg (by omega), Nat.min_eq_right (by omega)]
    exact read
  · rw [stringsSize, if_neg current] at read
    rw [if_neg current, ← Nat.sub_sub]
    exact read

theorem Starts.stringEq (sound : Sound fdt) (string : CString wanted) (starts : Starts fdt start (.item prop) rest) :
    ∃ nameoff, load32 fdt (fdtHeader fdt .offDtStruct + start.toNat + 8) = some nameoff ∧
      fdtStringEq fdt (cint nameoff) (nameBytes wanted) = some (decide (prop.1 = wanted)) := by
  have checked := fdtutilCheck_checked sound.accepted
  have small := sound.small
  simp only [INT_MAX] at small
  obtain ⟨offset, piece, rfl, placed, means, -⟩ := starts
  cases piece with
  | prop nameoff gap val =>
      obtain ⟨-, valid, stands⟩ := means
      have inside := checked.strings
      have room : nameoff < stringsSize fdt := by
        have length := stands.length_le
        simp only [List.length_append, List.length_cons, cells, List.length_take] at length
        omega
      have range : nameoff < 2 ^ 31 := by
        rw [stringsSize] at room
        split at room <;> omega
      have stored := (placed.holds.right.right.left).load32 (by omega)
      simp only [length_encode] at stored
      refine ⟨nameoff, ?_, ?_⟩
      · rw [Int.toNat_natCast, Nat.add_assoc]
        exact stored
      · have positive : cint (nameoff : Int) = nameoff := by
          rw [cint, Int.bmod_eq_of_le (by omega) (by omega)]
        rw [fdtStringEq, positive, stands.getString sound valid]
        simp only [Option.bind_eq_bind, Option.bind_some, Option.pure_def, valid.nameBytes_inj string]
  | node | leave | nop | stop => exact means.elim

/-- Where the next property starts, behind tags without meaning. -/
theorem Laid.nextprop_item (laid : Laid fdt offset (.item prop :: rest)) :
    ∃ start, nextprop fdt offset = some start ∧ Starts fdt start (.item prop) rest := by
  generalize whole : (.item prop :: rest : List FdtToken) = tokens at laid
  induction laid with
  | stop placed => cases whole
  | @nop offset tokens placed behind ih =>
      rw [nextprop, placed.nextTag]
      exact ih whole
  | @cons offset token tokens piece placed means behind ih =>
      cases whole
      rw [nextprop, placed.nextTag, means.tag]
      exact ⟨_, rfl, placed.starts means behind⟩

/-- The properties of a node are over. -/
def NoProp : List FdtToken → Prop
  | .enter _ :: _ | .leave :: _ => True
  | _ => False

theorem Laid.nextprop_none (laid : Laid fdt offset tokens) (ends : NoProp tokens) :
    nextprop fdt offset = some (-FDT_ERR_NOTFOUND) := by
  induction laid with
  | stop placed => exact ends.elim
  | @nop offset tokens placed behind ih =>
      rw [nextprop, placed.nextTag]
      exact ih ends
  | @cons offset token tokens piece placed means behind ih =>
      rw [nextprop, placed.nextTag, means.tag]
      cases token with
      | enter name => rfl
      | item prop => exact ends.elim
      | leave => rfl

theorem Starts.getPropertyLoop_item (sound : Sound fdt) (string : CString wanted)
    (starts : Starts fdt start (.item prop) rest) :
    ∃ next : ℕ, Laid fdt next rest ∧
      getPropertyLoop fdt (nameBytes wanted) start =
        if prop.1 = wanted then some (.ok start)
        else (nextprop fdt next).bind (getPropertyLoop fdt (nameBytes wanted)) := by
  have inside := starts.nextTag.1
  obtain ⟨next, checked, laid⟩ := starts.checkPropOffset
  have following : fdtNextPropertyOffset fdt start = nextprop fdt next := by
    rw [fdtNextPropertyOffset, checked, Option.bind_eq_bind, Option.bind_some, if_neg (by omega)]
  obtain ⟨nameoff, loaded, equal⟩ := starts.stringEq sound string
  refine ⟨next, laid, ?_⟩
  rw [getPropertyLoop, if_neg (by omega), checked]
  simp only
  rw [if_neg (by omega), loaded]
  simp only
  rw [equal, following]
  by_cases same : prop.1 = wanted
  · simp [same]
  · rw [if_neg same, decide_eq_false same]
    cases nextprop fdt next <;> rfl

/-- The properties of a node from the first of that name on. -/
def fromProp (wanted : Name) (props : List (Name × List UInt8)) : List (Name × List UInt8) :=
  props.dropWhile fun prop => prop.1 ≠ wanted

theorem lookup_fromProp (wanted : Name) (props : List (Name × List UInt8)) :
    props.lookup wanted = (fromProp wanted props).head?.map Prod.snd := by
  induction props with
  | nil => rfl
  | cons prop props ih =>
      obtain ⟨name, val⟩ := prop
      by_cases same : name = wanted
      · subst same
        simp [fromProp]
      · rw [List.lookup_cons, beq_false_of_ne (Ne.symm same), ih]
        simp [fromProp, same]

/-- What the search for a property comes to. -/
def FoundProp (fdt : List UInt8) (after : List FdtToken) : List (Name × List UInt8) → Except Int Int → Prop
  | [], found => found = .error (-FDT_ERR_NOTFOUND)
  | prop :: more, found => ∃ start, found = .ok start ∧ Starts fdt start (.item prop) (more.map .item ++ after)

/-- The loop of `fdt_get_property` from where a node's properties start. -/
theorem Laid.findProperty (sound : Sound fdt) (string : CString wanted) (ends : NoProp after)
    (laid : Laid fdt offset (props.map .item ++ after)) :
    ∃ found, (nextprop fdt offset).bind (getPropertyLoop fdt (nameBytes wanted)) = some found ∧
      FoundProp fdt after (fromProp wanted props) found := by
  induction props generalizing offset with
  | nil =>
      rw [List.map_nil, List.nil_append] at laid
      rw [laid.nextprop_none ends, Option.bind_some, getPropertyLoop, if_pos (by decide)]
      exact ⟨_, rfl, rfl⟩
  | cons prop props ih =>
      rw [List.map_cons, List.cons_append] at laid
      obtain ⟨start, read, starts⟩ := laid.nextprop_item
      obtain ⟨next, behind, searched⟩ := starts.getPropertyLoop_item sound string
      rw [read, Option.bind_some, searched]
      by_cases same : prop.1 = wanted
      · have first : fromProp wanted (prop :: props) = prop :: props := by simp [fromProp, same]
        rw [if_pos same, first]
        exact ⟨_, rfl, start, rfl, starts⟩
      · have skipped : fromProp wanted (prop :: props) = fromProp wanted props := by simp [fromProp, same]
        rw [if_neg same, skipped]
        exact ih behind

end Properties

end Kmorph.Fdt
