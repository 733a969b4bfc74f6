import Kmorph.FdtReader

/-!
A node that stands at an offset of a blob, and what the readers answer about it: its
name, its properties, its children one after the other and by name.
-/

namespace Kmorph

open Brackets

def Node.contents : Node → List FdtToken
  | .mk props children => props.map .item ++ Node.forest children

theorem Node.tokens_contents (name : Name) (node : Node) :
    node.tokens name = .enter name :: (node.contents ++ [.leave]) := by
  cases node with
  | mk props children => rw [Node.tokens, Node.contents, List.append_assoc]

mutual

theorem Node.balanced_contents : (node : Node) → Brackets.Balanced node.contents
  | .mk props children => (Brackets.Balanced.items props).append (Node.balanced_forest children)

theorem Node.balanced_forest : (children : List (Name × Node)) → Brackets.Balanced (Node.forest children)
  | [] => .nil
  | (name, node) :: rest => by
      rw [Node.forest, Node.tokens_contents, List.cons_append, List.append_assoc, List.singleton_append]
      exact .group name (Node.balanced_contents node) (Node.balanced_forest rest)

end

namespace Fdt

open BigEndian Extents

def Stands (fdt : List UInt8) (offset : Int) (name : Name) (node : Node) : Prop :=
  Sound fdt ∧ ∃ rest, Starts fdt offset (.enter name) (node.contents ++ .leave :: rest)

/-- Nodes that follow each other from an offset on; a negative one says that there are no more. -/
def Siblings (fdt : List UInt8) : Int → List (Name × Node) → Prop
  | offset, [] => offset < 0
  | offset, (name, node) :: rest =>
      0 ≤ offset ∧ Stands fdt offset name node ∧
        ∃ next, fdtNextSubnode fdt offset = some next ∧ Siblings fdt next rest

section Trees

variable {fdt : List UInt8} {rest : List FdtToken} {offset next : Int} {name wanted : Name} {node : Node}
  {children : List (Name × Node)}

theorem Flat.stands {tree : Node} (flat : Flat fdt (tree.tokens name)) : Stands fdt 0 name tree := by
  rw [Node.tokens_contents] at flat
  exact ⟨⟨flat.accepted, flat.small⟩, [], flat.starts⟩

theorem Stands.nonneg (stands : Stands fdt offset name node) : 0 ≤ offset := by
  obtain ⟨-, rest, starts⟩ := stands
  exact starts.nextTag.1

theorem Stands.getName (stands : Stands fdt offset name node) : fdtGetName fdt offset = some (.ok (nameBytes name)) := by
  obtain ⟨sound, rest, starts⟩ := stands
  exact starts.getName sound

theorem Node.forest_cons (name : Name) (node : Node) (children : List (Name × Node)) (rest : List FdtToken) :
    Node.forest ((name, node) :: children) ++ rest =
      .enter name :: (node.contents ++ .leave :: (Node.forest children ++ rest)) := by
  simp [Node.forest, Node.tokens_contents]

theorem Found.siblings (sound : Sound fdt)
    (found : Found fdt (scan (fun depth _ => depth ≤ 1) 0 (Node.forest children ++ .leave :: rest)) next) :
    Siblings fdt next children := by
  induction children generalizing next with
  | nil =>
      obtain rfl : next = -FDT_ERR_NOTFOUND := found
      exact (by decide : -FDT_ERR_NOTFOUND < 0)
  | cons child children ih =>
      obtain ⟨name, node⟩ := child
      rw [Node.forest_cons, scan, if_pos (by decide)] at found
      have starts : Starts fdt next (.enter name) (node.contents ++ .leave :: (Node.forest children ++ .leave :: rest)) :=
        found
      obtain ⟨after, walked, behind⟩ := starts.nextSubnodeLoop 1
      rw [(Node.balanced_contents node).scan fun depth deeper a => by simpa using deeper, scan] at behind
      exact ⟨starts.nextTag.1, ⟨sound, _, starts⟩, after, walked, ih behind⟩

theorem Stands.firstSubnode (stands : Stands fdt offset name node) :
    ∃ first, fdtFirstSubnode fdt offset = some first ∧ Siblings fdt first node.children := by
  obtain ⟨sound, rest, starts⟩ := stands
  obtain ⟨props, children⟩ := node
  obtain ⟨⟨next, after⟩, walked, reached⟩ := starts.nextNode 0
  rw [Node.contents, List.append_assoc, scan_items] at reached
  rw [fdtFirstSubnode, ← Nat.cast_zero, walked]
  cases children with
  | nil =>
      obtain rfl : after = -1 := reached
      exact ⟨_, rfl, by simp [Siblings, Node.children, FDT_ERR_NOTFOUND]⟩
  | cons child children =>
      obtain ⟨name, node⟩ := child
      rw [Node.forest_cons, scan, if_pos rfl] at reached
      obtain ⟨rfl, first⟩ := reached
      have inside := first.nextTag.1
      refine ⟨next, ?_, @Found.siblings _ rest _ _ sound ?_⟩
      · simp only [Option.bind_eq_bind, Option.bind_some, Option.pure_def]
        rw [if_neg (by omega)]
      · rw [Node.children, Node.forest_cons, scan, if_pos (by decide)]
        exact first

/-- A scan for a child of the name meets the children in order, and nothing inside of them. -/
theorem scan_forest (eq : Name → Bool) (children : List (Name × Node)) (after : List FdtToken) :
    match children.find? fun child => eq child.1 with
    | none =>
        scan (fun depth name => depth = 1 && eq name) 0 (Node.forest children ++ after) =
          scan (fun depth name => depth = 1 && eq name) 0 after
    | some (name, node) =>
        ∃ later, scan (fun depth name => depth = 1 && eq name) 0 (Node.forest children ++ after) =
          .found 1 name (node.contents ++ .leave :: later) := by
  induction children with
  | nil => rfl
  | cons child children ih =>
      obtain ⟨name, node⟩ := child
      have shape : Node.forest ((name, node) :: children) ++ after =
          .enter name :: (node.contents ++ .leave :: (Node.forest children ++ after)) := by
        simp [Node.forest, Node.tokens_contents]
      rw [shape, scan]
      by_cases found : eq name
      · simp only [List.find?_cons, found, decide_true, Bool.and_self, if_true]
        exact ⟨_, rfl⟩
      · have skipped : (decide (0 + 1 = 1) && eq name) = false := by simpa using found
        have inner : ∀ depth > 1, ∀ name, (decide (depth = 1) && eq name) = false := by
          intro depth deeper name
          rw [decide_eq_false (by omega), Bool.false_and]
        rw [skipped, if_neg (by simp), (Node.balanced_contents node).scan inner, scan,
          List.find?_cons_of_neg (by simpa using found)]
        exact ih

theorem Stands.subnodeOffset (stands : Stands fdt offset name node) (string : CString wanted) :
    ∃ found, fdtSubnodeOffset fdt offset (nameBytes wanted) = some found ∧
      match node.children.find? fun child => fdtNodenameEq child.1 wanted with
      | none => found < 0
      | some (name, child) => Stands fdt found name child := by
  obtain ⟨sound, rest, starts⟩ := stands
  obtain ⟨props, children⟩ := node
  obtain ⟨next, walked, found⟩ := Starts.subnodeLoop
    (fun _ _ _ inside => inside.nodenameMatches sound string) starts 0 (by simp)
  have scanned := scan_forest (fdtNodenameEq · wanted) children (.leave :: rest)
  rw [Node.contents, List.append_assoc, scan_items] at found
  refine ⟨next, ?_, ?_⟩
  · rw [fdtSubnodeOffset, if_neg sound.roProbe_nonneg, ← Nat.cast_zero, walked]
  · rw [Node.children]
    cases search : children.find? fun child => fdtNodenameEq child.1 wanted with
    | none =>
        rw [search] at scanned
        simp only at scanned
        rw [scanned] at found
        obtain rfl : next = -FDT_ERR_NOTFOUND := found
        exact show -FDT_ERR_NOTFOUND < 0 by decide
    | some child =>
        obtain ⟨childName, child⟩ := child
        rw [search] at scanned
        obtain ⟨later, scanned⟩ := scanned
        rw [scanned] at found
        exact ⟨sound, later, found⟩

theorem noProp_forest (children : List (Name × Node)) (rest : List FdtToken) :
    NoProp (Node.forest children ++ .leave :: rest) := by
  cases children with
  | nil => trivial
  | cons child children =>
      rw [Node.forest_cons]
      trivial

theorem Stands.findProperty (stands : Stands fdt offset name node) (string : CString wanted) :
    ∃ found rest, (fdtFirstPropertyOffset fdt offset).bind (getPropertyLoop fdt (nameBytes wanted)) = some found ∧
      FoundProp fdt rest (fromProp wanted node.props) found := by
  obtain ⟨sound, rest, starts⟩ := stands
  obtain ⟨props, children⟩ := node
  obtain ⟨next, checked, laid⟩ := starts.checkNodeOffset
  rw [Node.contents, List.append_assoc] at laid
  obtain ⟨found, searched, which⟩ := laid.findProperty sound string (noProp_forest children rest)
  refine ⟨found, _, ?_, which⟩
  rw [fdtFirstPropertyOffset, checked, Option.bind_eq_bind, Option.bind_some, if_neg (by omega)]
  exact searched

theorem Stands.getprop_none (stands : Stands fdt offset name node) (string : CString wanted)
    (absent : node.props.lookup wanted = none) :
    Fdt.fdtGetprop fdt offset (nameBytes wanted) = some (.error (-FDT_ERR_NOTFOUND)) := by
  obtain ⟨found, rest, searched, which⟩ := stands.findProperty string
  rw [lookup_fromProp, Option.map_eq_none_iff, List.head?_eq_none_iff] at absent
  rw [absent] at which
  obtain rfl : found = .error (-FDT_ERR_NOTFOUND) := which
  rw [Fdt.fdtGetprop, Option.bind_eq_bind, Option.bind_eq_bind, ← Option.bind_assoc, searched]
  rfl

/-- A property as the readers find it: its length, and its bytes with the tag behind them. -/
theorem Starts.property {prop : Name × List UInt8} (starts : Starts fdt offset (.item prop) rest) :
    load32 fdt (fdtHeader fdt .offDtStruct + offset.toNat + 4) = some prop.2.length ∧
      cint prop.2.length = prop.2.length ∧
      ∃ tag : FdtTag,
        load fdt (fdtHeader fdt .offDtStruct + offset.toNat + FDT_PROPERTY_SIZE +
            if fdtHeader fdt .version < 0x10 ∧ (offset + FDT_PROPERTY_SIZE) % 8 ≠ 0 ∧ prop.2.length ≥ 8 then 4 else 0)
          (fdtTagalign prop.2.length + 4) = some (pad prop.2 ++ encode 4 tag.word) := by
  obtain ⟨name, val⟩ := prop
  obtain ⟨start, piece, rfl, placed, means, laid⟩ := starts
  cases piece with
  | prop nameoff gap stored =>
      obtain ⟨rfl, -, -⟩ := means
      obtain ⟨tag, behind⟩ := laid.holds_tag
      have body := placed.holds.right
      have below := body.inside
      have small := body.small
      have room := le_fdtTagalign stored.length
      simp only [Piece.body, List.length_append, length_encode, length_pad, INT_MAX] at below small
      have length := body.left.load32 (by omega)
      have value := body.right.right.right
      have total : (Piece.prop nameoff gap stored).bytes.length = 12 + gap.length + fdtTagalign stored.length := by
        simp only [Piece.bytes, Piece.body, List.length_append, length_encode, length_pad]
        omega
      simp only [length_encode] at length value
      rw [total, show start + (12 + gap.length + fdtTagalign stored.length) =
        start + 4 + 4 + 4 + gap.length + (pad stored).length by rw [length_pad]; omega] at behind
      have whole := (value.append behind).load
      have fits := placed.fits
      have width : FDT_PROPERTY_SIZE = 12 := rfl
      have shift : (if fdtHeader fdt .version < 0x10 ∧ ((start : Int) + FDT_PROPERTY_SIZE) % 8 ≠ 0 ∧
          stored.length ≥ 8 then 4 else 0) = gap.length := by
        rw [Piece.Fits] at fits
        rw [fits]
        exact if_congr (by omega) rfl rfl
      rw [List.length_append, length_pad, length_encode] at whole
      refine ⟨?_, ?_, tag, ?_⟩
      · rw [Int.toNat_natCast, Nat.add_assoc]
        exact length
      · simp only
        rw [cint, Int.bmod_eq_of_le (by omega) (by omega)]
      · rw [shift, Int.toNat_natCast, width]
        rw [show fdtHeader fdt .offDtStruct + (start + 4 + 4 + 4 + gap.length) =
          fdtHeader fdt .offDtStruct + start + 12 + gap.length by omega] at whole
        exact whole
  | node | leave | nop | stop => exact means.elim

theorem Stands.getprop_some (stands : Stands fdt offset name node) (string : CString wanted) {val : List UInt8}
    (present : node.props.lookup wanted = some val) :
    ∃ p, ∃ tag : FdtTag, Fdt.fdtGetprop fdt offset (nameBytes wanted) = some (.ok (p, (val.length : Int))) ∧
      load fdt p (fdtTagalign val.length + 4) = some (pad val ++ encode 4 tag.word) := by
  obtain ⟨found, rest, searched, which⟩ := stands.findProperty string
  obtain ⟨prop, head, rfl⟩ := Option.map_eq_some_iff.mp ((lookup_fromProp wanted node.props).symm.trans present)
  obtain ⟨more, split⟩ := List.head?_eq_some_iff.mp head
  rw [split] at which
  obtain ⟨start, rfl, starts⟩ := which
  obtain ⟨length, range, tag, value⟩ := starts.property
  refine ⟨_, tag, ?_, value⟩
  rw [Fdt.fdtGetprop, Option.bind_eq_bind, Option.bind_eq_bind, ← Option.bind_assoc, searched]
  simp only [Option.bind_some, length, Option.bind_eq_bind, range]
  split <;> rfl

end Trees

end Fdt

end Kmorph
