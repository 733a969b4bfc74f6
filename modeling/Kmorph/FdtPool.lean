import Kmorph.Fdt
import Kmorph.FdtPoolCore

/-!
What `dt_read_pool` makes of the bytes of a tree is what it makes of the tree: the
loops over subnodes are folds over the children, and the values it reads are those of
the properties, with the bytes behind them where it reads further than they go.
-/

namespace Kmorph.Fdt

open BigEndian Brackets Extents

section Values

variable {fdt : List UInt8} {p len : ℕ} {bytes : List UInt8}

theorem load_part {k n : ℕ} (loaded : load fdt p len = some bytes) (inside : k + n ≤ len) :
    load fdt (p + k) n = some (cells bytes k n) := by
  rw [load] at loaded
  split at loaded
  · cases loaded
    rw [load, if_pos (by omega), cells_cells inside]
  · cases loaded

theorem cells_append_of_le {k n : ℕ} {before after : List UInt8} (inside : k + n ≤ before.length) :
    cells (before ++ after) k n = cells before k n := by
  rw [cells, cells, List.drop_append_of_le_length (by omega), List.take_append_of_le_length]
  rw [List.length_drop]
  omega

theorem take_string {first after str : List UInt8} (noNul : 0 ∉ first) (string : 0 ∉ str) :
    (first ++ 0 :: after).take (str.length + 1) = str ++ [0] ↔ first = str := by
  constructor
  · intro taken
    have whole := List.take_append_drop (str.length + 1) (first ++ 0 :: after)
    rw [taken, List.append_assoc, List.singleton_append] at whole
    rw [← @takeWhile_nul first after noNul, ← whole, takeWhile_nul string]
  · rintro rfl
    rw [List.append_cons, List.take_left' (by simp)]

theorem fdtStringlistContains_step {list str s : List UInt8} (room : ¬ list.length < str.length)
    (first : load fdt p (str.length + 1) = some s) (loaded : load fdt p list.length = some list) :
    fdtStringlistContains fdt p list.length str =
      if s = str ++ [0] then some true
      else if 0 ∈ list then
        fdtStringlistContains fdt (p + ((list.takeWhile (· ≠ 0)).length + 1))
          (list.length - ((list.takeWhile (· ≠ 0)).length + 1 : ℕ)) str
      else some false := by
  rw [fdtStringlistContains, if_neg (by omega), first]
  simp only [Int.toNat_natCast]
  split
  · rfl
  · split
    · rename_i missing
      rw [loaded] at missing
      cases missing
    · rename_i list' found
      rw [loaded] at found
      cases found
      simp only [dite_eq_ite]

/-- A NUL behind the list ends its last item. -/
theorem fdtStringlistContains_items {list str : List UInt8}
    (loaded : load fdt p (list.length + 1) = some (list ++ [0])) (string : 0 ∉ str) :
    fdtStringlistContains fdt p list.length str = some ((list.splitOn 0).any (· = str)) := by
  induction size : list.length using Nat.strong_induction_on generalizing list p with
  | _ n ih =>
    subst size
    have head (first after : List UInt8) (whole : list ++ [0] = first ++ 0 :: after) (noNul : 0 ∉ first)
        (room : ¬ list.length < str.length) :
        ∃ s, load fdt p (str.length + 1) = some s ∧ (s = str ++ [0] ↔ first = str) := by
      have taken := @load_part _ _ _ _ 0 (str.length + 1) loaded (by omega)
      rw [whole, cells, List.drop_zero] at taken
      exact ⟨_, taken, take_string noNul string⟩
    have all : load fdt p list.length = some list := (load_append loaded).1
    by_cases separated : 0 ∈ list
    · obtain ⟨first, rest, rfl, noNul⟩ := List.eq_append_cons_of_mem separated
      have shape : first ++ 0 :: rest ++ [0] = (first ++ [0]) ++ (rest ++ [0]) := by simp
      have size : (first ++ 0 :: rest).length = first.length + (rest.length + 1) := by simp
      have later := (load_append (shape ▸ loaded)).2
      rw [List.length_append, List.length_singleton, List.length_append, List.length_singleton] at later
      have next := ih rest.length (by omega) later rfl
      rw [List.splitOn_append_cons_self_of_not_mem noNul, List.any_cons]
      by_cases room : (first ++ 0 :: rest).length < str.length
      · have short : ¬ first = str := by
          rintro rfl
          omega
        rw [fdtStringlistContains, if_pos (by omega)] at next
        rw [fdtStringlistContains, if_pos (by omega), decide_eq_false short, Bool.false_or, next]
      · obtain ⟨s, taken, same⟩ := head first (rest ++ [0]) (by simp) noNul room
        have skipped : ((first ++ 0 :: rest).length : Int) - ((first.length + 1 : ℕ) : Int) = rest.length := by
          omega
        rw [fdtStringlistContains_step room taken all, if_pos separated, takeWhile_nul noNul, skipped, next]
        by_cases found : first = str
        · rw [if_pos (same.mpr found), decide_eq_true found, Bool.true_or]
        · rw [if_neg (same.not.mpr found), decide_eq_false found, Bool.false_or]
    · rw [List.splitOn_eq_singleton separated, List.any_cons, List.any_nil, Bool.or_false]
      by_cases room : list.length < str.length
      · rw [fdtStringlistContains, if_pos (by omega), decide_eq_false (by rintro rfl; omega)]
      · obtain ⟨s, taken, same⟩ := head list [] rfl separated room
        rw [fdtStringlistContains_step room taken all, if_neg separated]
        by_cases found : list = str
        · rw [if_pos (same.mpr found), decide_eq_true found]
        · rw [if_neg (same.not.mpr found), decide_eq_false found]

end Values

/-! Subnodes. -/

section Loops

variable {fdt : List UInt8} {offset : Int} {name : Name} {node : Node} {children : List (Name × Node)} {σ : Type}
  {body : Int → σ → Option (Except Int σ)} {step : σ → Name × Node → Except Int σ}

theorem forEachSubnode_next {next : Int} (inside : 0 ≤ offset) (found : fdtNextSubnode fdt offset = some next) (s : σ) :
    Fdt.forEachSubnode fdt body offset s =
      match body offset s with
      | none => none
      | some (.error errno) => some (.error errno)
      | some (.ok s) => Fdt.forEachSubnode fdt body next s := by
  rw [Fdt.forEachSubnode, if_neg (by omega)]
  cases body offset s with
  | none => rfl
  | some out =>
      cases out with
      | error errno => rfl
      | ok s =>
          simp only
          split
          · rename_i missing
            rw [found] at missing
            cases missing
          · rename_i next' found'
            rw [found] at found'
            cases found'
            rfl

/-- A loop over subnodes whose body answers by the node is a fold over the children. Where the answers
are known only under a condition, so is the fold; the loop ends without it. -/
theorem Siblings.forEach {known : Prop} (siblings : Siblings fdt offset children)
    (answers : ∀ offset name node, (name, node) ∈ children → Stands fdt offset name node →
      ∀ s, ∃ out, body offset s = some out ∧ (known → out = step s (name, node)))
    (s : σ) : ∃ out, Fdt.forEachSubnode fdt body offset s = some out ∧ (known → out = children.foldlM step s) := by
  induction children generalizing offset s with
  | nil =>
      have done : offset < 0 := siblings
      rw [Fdt.forEachSubnode, if_pos done, List.foldlM_nil]
      exact ⟨_, rfl, fun _ => rfl⟩
  | cons child children ih =>
      obtain ⟨inside, stands, next, found, later⟩ := siblings
      obtain ⟨out, answered, same⟩ := answers _ _ _ (by simp) stands s
      rw [forEachSubnode_next inside found, answered, List.foldlM_cons]
      cases out with
      | error errno => exact ⟨_, rfl, fun holds => by rw [← same holds]; rfl⟩
      | ok s =>
          obtain ⟨out, run, folded⟩ := ih later (fun _ _ _ member => answers _ _ _ (by simp [member])) s
          refine ⟨out, run, fun holds => ?_⟩
          rw [← same holds]
          exact folded holds

theorem Stands.forEachSubnode_known {known : Prop} (stands : Stands fdt offset name node)
    (answers : ∀ offset name child, (name, child) ∈ node.children → Stands fdt offset name child →
      ∀ s, ∃ out, body offset s = some out ∧ (known → out = step s (name, child)))
    (s : σ) : ∃ out, fdtForEachSubnode fdt offset s body = some out ∧ (known → out = node.children.foldlM step s) := by
  obtain ⟨first, found, siblings⟩ := stands.firstSubnode
  rw [fdtForEachSubnode, found]
  exact siblings.forEach answers s

theorem Stands.forEachSubnode (stands : Stands fdt offset name node)
    (answers : ∀ offset name node, Stands fdt offset name node → ∀ s, body offset s = some (step s (name, node)))
    (s : σ) : fdtForEachSubnode fdt offset s body = some (node.children.foldlM step s) := by
  obtain ⟨out, run, folded⟩ := @Stands.forEachSubnode_known _ _ _ _ _ body step True stands
    (fun offset name node _ stands s => ⟨_, answers offset name node stands s, fun _ => rfl⟩) s
  rw [run, folded trivial]

theorem Stands.subnode (stands : Stands fdt offset name node) {wanted : String} (string : CString wanted.toList) :
    ∃ found, fdtSubnodeOffset fdt offset (nameBytes wanted.toList) = some found ∧
      match fdtSubnode node wanted with
      | none => found < 0
      | some child => ∃ name, Stands fdt found name child := by
  obtain ⟨found, walked, which⟩ := stands.subnodeOffset string
  refine ⟨found, walked, ?_⟩
  rw [fdtSubnode]
  cases search : node.children.find? fun child => fdtNodenameEq child.1 wanted.toList with
  | none =>
      rw [search] at which
      exact which
  | some child =>
      rw [search] at which
      exact ⟨child.1, which⟩

theorem Stands.path (stands : Stands fdt 0 name node) {wanted : String}
    (string : CString wanted.toList) {path : String}
    (names : ((nameBytes path.toList).splitOn 0x2f).filter (· ≠ []) = [nameBytes wanted.toList]) :
    ∃ found, fdtPathOffset fdt (nameBytes path.toList) = some found ∧
      match fdtSubnode node wanted with
      | none => found < 0
      | some child => ∃ name, Stands fdt found name child := by
  obtain ⟨found, walked, which⟩ := stands.subnode string
  refine ⟨found, ?_, which⟩
  have given : nameBytes path.toList ≠ [] := by
    intro empty
    rw [empty] at names
    simp at names
  rw [fdtPathOffset, if_neg stands.1.roProbe_nonneg, if_neg given, names, pathLoop, walked]
  simp only [pathLoop, ite_self]

end Loops

/-! Properties. -/

section Properties

variable {fdt : List UInt8} {offset : Int} {name : Name} {node : Node} {wanted : String} {p : ℕ} {val : List UInt8}
  {tag : FdtTag}

theorem pad_word (val : List UInt8) (tag : FdtTag) :
    ∃ more, pad val ++ encode 4 tag.word = val ++ 0 :: more := by
  have first : ∃ more, encode 4 tag.word = 0 :: more := by
    cases tag <;> exact ⟨_, rfl⟩
  obtain ⟨more, first⟩ := first
  refine ⟨List.replicate (fdtTagalign val.length - val.length) 0 ++ more, ?_⟩
  rw [pad, first, List.append_assoc, List.append_cons, ← List.replicate_succ', List.replicate_succ, List.cons_append]

theorem take_pad (filled : val ≠ []) (after : List UInt8) :
    (pad val ++ after).take 4 = (val ++ [0, 0, 0]).take 4 := by
  rcases val with _ | ⟨b, _ | ⟨c, _ | ⟨d, _ | ⟨e, val⟩⟩⟩⟩
  · exact absurd rfl filled
  all_goals simp [pad, fdtTagalign, fdtAlign, FDT_TAGSIZE, List.replicate_succ]

theorem load_value (loaded : load fdt p (fdtTagalign val.length + 4) = some (pad val ++ encode 4 tag.word)) {k n : ℕ}
    (inside : k + n ≤ val.length) : load fdt (p + k) n = some (cells val k n) := by
  have := le_fdtTagalign val.length
  rw [load_part loaded (by omega), pad, List.append_assoc, cells_append_of_le inside]

theorem load_behind (loaded : load fdt p (fdtTagalign val.length + 4) = some (pad val ++ encode 4 tag.word)) :
    load fdt p (val.length + 1) = some (val ++ [0]) := by
  obtain ⟨more, behind⟩ := pad_word val tag
  rw [behind, List.append_cons] at loaded
  have := (load_append loaded).1
  rwa [List.length_append, List.length_singleton] at this

theorem loadString_value (loaded : load fdt p (fdtTagalign val.length + 4) = some (pad val ++ encode 4 tag.word)) :
    loadString fdt p = some (val.takeWhile (· ≠ 0)) := by
  have behind := load_behind loaded
  by_cases inside : 0 ∈ val
  · obtain ⟨first, more, rfl, noNul⟩ := List.eq_append_cons_of_mem inside
    rw [takeWhile_nul noNul]
    rw [List.append_assoc, List.cons_append] at behind
    exact loadString_of_load behind noNul
  · have whole : val.takeWhile (· ≠ 0) = val := by
      rw [List.takeWhile_eq_self_iff]
      intro b member
      rw [decide_eq_true_eq]
      rintro rfl
      exact inside member
    rw [whole, loadString_of_load behind inside]

theorem char_byte (b : UInt8) : (Char.ofNat b.toNat).toNat = b.toNat := by
  have small := b.toNat_lt
  have valid : b.toNat.isValidChar := .inl (by omega)
  delta Char.ofNat
  rw [dif_pos valid]
  rfl

theorem nameBytes_bytesName (bytes : List UInt8) : nameBytes (bytesName bytes) = bytes := by
  have back (b : UInt8) : UInt8.ofNat (Char.ofNat b.toNat).toNat = b := by
    rw [char_byte, UInt8.ofNat_toNat]
  rw [nameBytes, bytesName, List.map_map]
  exact (List.map_congr_left fun b _ => back b).trans (List.map_id bytes)

theorem bytesName_takeWhile (bytes : List UInt8) : bytesName (bytes.takeWhile (· ≠ 0)) = propString bytes := by
  have same (b : UInt8) : Char.ofNat b.toNat ≠ '\x00' ↔ b ≠ 0 := by
    rw [Ne, Ne, not_iff_not]
    constructor
    · intro nul
      have value := char_byte b
      rw [nul] at value
      exact UInt8.toNat_inj.mp value.symm
    · rintro rfl
      rfl
  rw [propString, cString, bytesName, List.takeWhile_map]
  congr 2
  funext b
  exact (decide_eq_decide.mpr (same b)).symm

theorem CString.bytesName_eq (string : CString wanted.toList) (item : List UInt8) :
    bytesName item = wanted.toList ↔ item = nameBytes wanted.toList := by
  constructor
  · intro same
    rw [← same, nameBytes_bytesName]
  · rintro rfl
    exact string.bytesName_nameBytes

theorem Stands.readReg (stands : Stands fdt offset name node) :
    Fdt.fdtutilReadReg fdt offset = some (Kmorph.fdtutilReadReg node) := by
  rw [Fdt.fdtutilReadReg, Kmorph.fdtutilReadReg, Kmorph.fdtGetprop]
  cases present : node.props.lookup "reg".toList with
  | none =>
      rw [stands.getprop_none (by decide) present]
      rfl
  | some reg =>
      obtain ⟨p, tag, found, loaded⟩ := stands.getprop_some (by decide) present
      rw [found]
      simp only [Option.bind_eq_bind, Option.bind_some]
      by_cases size : reg.length = 16
      · have low := @load_value _ _ _ _ loaded 0 8 (by omega)
        have high := @load_value _ _ _ _ loaded 8 8 (by omega)
        rw [cells, List.drop_zero, Nat.add_zero] at low
        rw [cells, List.take_of_length_le (by simp; omega)] at high
        rw [if_neg (by omega), if_neg (by omega), low, high]
        rfl
      · rw [if_pos (by omega), if_pos size]
        rfl

theorem Stands.readU64 (stands : Stands fdt offset name node) (string : CString wanted.toList) :
    Fdt.fdtutilReadU64 fdt offset wanted = some (Kmorph.fdtutilReadU64 node wanted) := by
  rw [Fdt.fdtutilReadU64, Kmorph.fdtutilReadU64, Kmorph.fdtGetprop]
  cases present : node.props.lookup wanted.toList with
  | none =>
      rw [stands.getprop_none string present]
      rfl
  | some cell =>
      obtain ⟨p, tag, found, loaded⟩ := stands.getprop_some string present
      rw [found]
      simp only [Option.bind_eq_bind, Option.bind_some]
      by_cases size : cell.length = 8
      · have whole := @load_value _ _ _ _ loaded 0 8 (by omega)
        rw [cells, List.drop_zero, Nat.add_zero, List.take_of_length_le (by omega)] at whole
        rw [if_neg (by omega), if_neg (by omega), whole]
        rfl
      · rw [if_pos (by omega), if_pos size]
        rfl

theorem Stands.readCpulist (stands : Stands fdt offset name node) (string : CString wanted.toList) :
    Fdt.fdtutilReadCpulist fdt offset wanted = some (Kmorph.fdtutilReadCpulist node wanted) := by
  rw [Fdt.fdtutilReadCpulist, Kmorph.fdtutilReadCpulist, Kmorph.fdtGetprop]
  cases present : node.props.lookup wanted.toList with
  | none =>
      rw [stands.getprop_none string present]
      rfl
  | some list =>
      obtain ⟨p, tag, found, loaded⟩ := stands.getprop_some string present
      have whole := @load_value _ _ _ _ loaded 0 list.length (by omega)
      rw [cells, List.drop_zero, Nat.add_zero, List.take_length] at whole
      rw [found]
      simp only [Option.bind_eq_bind, Option.bind_some, Int.toNat_natCast, whole]
      rfl

theorem Stands.checkCompatible (stands : Stands fdt offset name node) (string : CString wanted.toList) :
    ∃ answer, fdtNodeCheckCompatible fdt offset (nameBytes wanted.toList) = some answer ∧
      (answer = 0 ↔ fdtNodeCompatible node wanted) := by
  rw [fdtNodeCheckCompatible, fdtNodeCompatible, Kmorph.fdtGetprop]
  cases present : node.props.lookup "compatible".toList with
  | none =>
      rw [stands.getprop_none (by decide) present]
      exact ⟨-FDT_ERR_NOTFOUND, rfl, by simp [FDT_ERR_NOTFOUND]⟩
  | some list =>
      obtain ⟨p, tag, found, loaded⟩ := stands.getprop_some (by decide) present
      rw [found]
      simp only [Option.bind_eq_bind, Option.bind_some,
        fdtStringlistContains_items (load_behind loaded) string.noNul]
      have same : (list.splitOn 0).any (fun item => item = nameBytes wanted.toList) =
          (list.splitOn 0).any fun item => item.map (fun b => Char.ofNat b.toNat) = wanted.toList := by
        simp only [← string.bytesName_eq, bytesName]
      rw [same]
      exact ⟨_, rfl, by simp⟩

end Properties

/-! Folds that stop at an error. -/

section Folds

variable {α β σ : Type}

theorem foldlM_ok (f : σ → α → σ) (xs : List α) (s : σ) :
    xs.foldlM (fun s x => (.ok (f s x) : Except Int σ)) s = .ok (xs.foldl f s) := by
  induction xs generalizing s with
  | nil => rfl
  | cons x xs ih => exact ih (f s x)

/-- Adding what the elements give, one after the other, is mapping them first. -/
theorem foldlM_map (keep : α → Bool) (f : α → Except Int β) (add : σ → β → σ) (xs : List α) (s : σ) :
    xs.foldlM (fun s x => if keep x then (f x).map (add s) else .ok s) s =
      ((xs.filter keep).mapM f).map (List.foldl add s) := by
  induction xs generalizing s with
  | nil => rfl
  | cons x xs ih =>
      rw [List.foldlM_cons]
      by_cases kept : keep x
      · rw [if_pos kept, List.filter_cons_of_pos kept, List.mapM_cons]
        cases f x with
        | error errno => rfl
        | ok y =>
            refine (ih (add s y)).trans ?_
            cases (xs.filter keep).mapM f <;> rfl
      · rw [if_neg kept, List.filter_cons_of_neg kept]
        exact ih s

end Folds

/-! The pool. -/

section Pool

variable {fdt : List UInt8} {offset : Int} {name : Name} {node : Node}

theorem Stands.cstring (stands : Stands fdt offset name node) : CString name := by
  obtain ⟨-, rest, starts⟩ := stands
  exact Starts.cstring starts

theorem Stands.sumChunks (stands : Stands fdt offset name node) :
    Fdt.sumChunks fdt offset = some (.ok (Kmorph.sumChunks node)) := by
  rw [Fdt.sumChunks, Kmorph.sumChunks, ← foldlM_ok]
  apply stands.forEachSubnode
  intro offset name node stands total
  rw [stands.getName]
  simp only [Option.bind_eq_bind, Option.bind_some]
  rw [CString.isPrefixOf (by decide) stands.cstring, ← memoryNodeFilter]
  by_cases memory : memoryNodeFilter name
  · rw [if_pos memory, if_pos memory, stands.readReg]
    cases Kmorph.fdtutilReadReg node <;> rfl
  · rw [if_neg memory, if_neg memory]
    rfl

theorem Stands.sumInstanceMemory (stands : Stands fdt 0 name node) :
    Fdt.sumInstanceMemory fdt = some (.ok (Kmorph.sumInstanceMemory node)) := by
  obtain ⟨instances, walked, which⟩ :=
    @Stands.path _ _ _ stands "instances" (by decide) INSTANCES_PATH (by decide)
  rw [Fdt.sumInstanceMemory, Kmorph.sumInstanceMemory, walked]
  simp only [Option.bind_eq_bind, Option.bind_some]
  cases found : fdtSubnode node "instances" with
  | none =>
      rw [found] at which
      rw [if_pos which]
      rfl
  | some child =>
      rw [found] at which
      obtain ⟨name, stands⟩ := which
      rw [if_neg (by have := stands.nonneg; omega), ← foldlM_ok]
      apply stands.forEachSubnode
      intro offset name node stands total
      obtain ⟨res, walked, which⟩ := @Stands.subnode _ _ _ _ stands "resources" (by decide)
      rw [walked]
      simp only [Option.bind_some]
      cases found : fdtSubnode node "resources" with
      | none =>
          rw [found] at which
          rw [if_pos which]
          rfl
      | some resources =>
          rw [found] at which
          obtain ⟨name, stands⟩ := which
          rw [if_neg (by have := stands.nonneg; omega), stands.readU64 (by decide), Option.map_some]
          cases Kmorph.fdtutilReadU64 resources "memory-bytes" <;> rfl

/-- The word that the read of a bridge's empty domain takes: what stands behind the property. -/
def Follows (fdt : List UInt8) (tree : Node) (behind : Node → UInt32) : Prop :=
  ∀ offset name bridge p word, (name, bridge) ∈ tree.children → Stands fdt offset name bridge →
    Fdt.fdtGetprop fdt offset (nameBytes "linux,pci-domain".toList) = some (.ok (p, 0)) → load fdt p 4 = some word →
    behind bridge = fdt32ToCpu word

theorem Stands.pciDomain {tree : Node} (stands : Stands fdt offset name node) (member : (name, node) ∈ tree.children)
    (behind : Node → UInt32) :
    ∃ domain, Fdt.pciDomain fdt offset = some domain ∧
      (Follows fdt tree behind → domain = Kmorph.pciDomain (behind node) node) := by
  rw [Fdt.pciDomain, Kmorph.pciDomain, Kmorph.fdtGetprop]
  cases present : node.props.lookup "linux,pci-domain".toList with
  | none =>
      rw [stands.getprop_none (by decide) present]
      exact ⟨0, rfl, fun _ => rfl⟩
  | some cell =>
      obtain ⟨p, tag, found, loaded⟩ := stands.getprop_some (by decide) present
      have first := @load_part _ _ _ _ 0 4 loaded (by omega)
      rw [Nat.add_zero, cells, List.drop_zero] at first
      rw [found]
      refine ⟨_, by simp only [Option.bind_eq_bind, Option.bind_some, first]; rfl, fun follows => ?_⟩
      by_cases empty : cell = []
      · subst empty
        exact (follows offset name node p _ member stands found first).symm
      · obtain ⟨b, rest, rfl⟩ := List.exists_cons_of_ne_nil empty
        rw [take_pad empty]

theorem Stands.collectPciFunction (stands : Stands fdt offset name node) (domain : UInt32) (out : List DeviceId) :
    Fdt.collectPciFunction fdt domain offset out =
      some (if (Kmorph.fdtGetprop node "vendor-id").isSome then (pciFunctionId domain node).map fun id => out ++ [id]
        else .ok out) := by
  rw [Fdt.collectPciFunction, Kmorph.fdtGetprop, pciFunctionId, Kmorph.fdtGetprop]
  cases vendor : node.props.lookup "vendor-id".toList with
  | none =>
      rw [stands.getprop_none (by decide) vendor]
      rfl
  | some id =>
      obtain ⟨_, -, found, -⟩ := stands.getprop_some (by decide) vendor
      rw [found]
      simp only [Option.bind_eq_bind, Option.bind_some, Option.isSome_some, if_true]
      cases present : node.props.lookup "reg".toList with
      | none =>
          rw [stands.getprop_none (by decide) present]
          rfl
      | some reg =>
          obtain ⟨p, tag, found, loaded⟩ := stands.getprop_some (by decide) present
          rw [found]
          simp only [Option.bind_some]
          by_cases short : reg.length < 4
          · rw [if_pos (by omega), if_pos short]
            rfl
          · have first := @load_value _ _ _ _ loaded 0 4 (by omega)
            rw [Nat.add_zero, cells, List.drop_zero] at first
            rw [if_neg (by omega), if_neg short, first]
            rfl

theorem Stands.collectPciFunctions {tree : Node} (stands : Stands fdt offset name node)
    (member : (name, node) ∈ tree.children) (behind : Node → UInt32) (out : List DeviceId) :
    ∃ ids, Fdt.collectPciFunctions fdt offset out = some ids ∧
      (Follows fdt tree behind → ids = (Kmorph.collectPciFunctions (behind node) node).map (out ++ ·)) := by
  obtain ⟨domain, read, same⟩ := stands.pciDomain member behind
  have pushed : (fun ids => out ++ ids) = List.foldl (fun out (id : DeviceId) => out ++ [id]) out := by
    funext ids
    rw [List.foldl_append_eq_append, ← List.flatMap_def, List.flatMap_singleton']
  have run : fdtForEachSubnode fdt offset out (Fdt.collectPciFunction fdt domain) =
      some (node.children.foldlM (fun out child =>
        if (Kmorph.fdtGetprop child.2 "vendor-id").isSome then (pciFunctionId domain child.2).map fun id => out ++ [id]
        else .ok out) out) :=
    stands.forEachSubnode (fun _ _ _ stands out => stands.collectPciFunction domain out) out
  rw [Fdt.collectPciFunctions, read]
  refine ⟨_, run, fun follows => ?_⟩
  rw [Kmorph.collectPciFunctions, ← same follows, pushed, ← foldlM_map]

theorem Stands.collectPoolPci (stands : Stands fdt 0 name node) (behind : Node → UInt32) :
    ∃ ids, Fdt.collectPoolPci fdt = some ids ∧ (Follows fdt node behind → ids = Kmorph.collectPoolPci behind node) := by
  have joined : List.foldl (· ++ ·) [] = (List.flatten : List (List DeviceId) → List DeviceId) := by
    funext parts
    exact (@List.foldl_append_eq_append _ _ parts id []).trans (by simp)
  have shape : Kmorph.collectPoolPci behind node =
      ((node.children.filter fun child => fdtNodeCompatible child.2 PCI_HOST_BRIDGE_COMPATIBLE).mapM
        fun bridge => Kmorph.collectPciFunctions (behind bridge.2) bridge.2).map (List.foldl (· ++ ·) []) := by
    rw [joined]
    rfl
  rw [shape, ← foldlM_map, Fdt.collectPoolPci]
  apply stands.forEachSubnode_known
  intro offset name node member stands out
  obtain ⟨answer, checked, same⟩ := @Stands.checkCompatible _ _ _ _ PCI_HOST_BRIDGE_COMPATIBLE stands (by decide)
  rw [checked]
  simp only [Option.bind_eq_bind, Option.bind_some]
  by_cases bridge : fdtNodeCompatible node PCI_HOST_BRIDGE_COMPATIBLE
  · rw [if_neg (by simpa using same.mpr bridge), if_pos bridge]
    exact stands.collectPciFunctions member behind out
  · rw [if_pos (same.not.mpr bridge), if_neg bridge]
    exact ⟨_, rfl, fun _ => rfl⟩

theorem Stands.propString (stands : Stands fdt offset name node) {wanted : String} (string : CString wanted.toList) :
    ∃ found, Fdt.fdtGetprop fdt offset (nameBytes wanted.toList) = some found ∧
      match Kmorph.fdtGetprop node wanted with
      | none => ∃ errno, found = .error errno
      | some val => ∃ p bytes, found = .ok (p, (val.length : Int)) ∧ loadString fdt p = some bytes ∧
          Kmorph.propString val = bytesName bytes := by
  rw [Kmorph.fdtGetprop]
  cases present : node.props.lookup wanted.toList with
  | none => exact ⟨_, stands.getprop_none string present, _, rfl⟩
  | some val =>
      obtain ⟨p, tag, found, loaded⟩ := stands.getprop_some string present
      exact ⟨_, found, p, _, rfl, loadString_value loaded, (bytesName_takeWhile val).symm⟩

/-- The name of a platform device, where the node is one. -/
def platformName (child : Name × Node) : Option Name :=
  if (Kmorph.fdtGetprop child.2 "device-type").map Kmorph.propString = some "platform".toList then
    some (((Kmorph.fdtGetprop child.2 "device-name").map Kmorph.propString).getD child.1)
  else none

theorem Stands.collectPlatformDevice (stands : Stands fdt offset name node) (out : List Name) :
    Fdt.collectPlatformDevice fdt offset out = some (.ok (out ++ (platformName (name, node)).toList)) := by
  obtain ⟨type, found, which⟩ := @Stands.propString _ _ _ _ stands "device-type" (by decide)
  rw [Fdt.collectPlatformDevice, platformName, found]
  simp only [Option.bind_eq_bind, Option.bind_some]
  cases present : Kmorph.fdtGetprop node "device-type" with
  | none =>
      rw [present] at which
      obtain ⟨errno, rfl⟩ := which
      simp
  | some val =>
      rw [present] at which
      obtain ⟨p, bytes, rfl, loaded, same⟩ := which
      simp only [loaded, Option.bind_some, Option.map_some, same, Option.some.injEq]
      by_cases platform : bytesName bytes = "platform".toList
      · have named := (CString.bytesName_eq (by decide) bytes).mp platform
        obtain ⟨device, found, which⟩ := @Stands.propString _ _ _ _ stands "device-name" (by decide)
        rw [if_neg (by simpa using named), if_pos platform, found]
        simp only [Option.bind_some]
        cases present : Kmorph.fdtGetprop node "device-name" with
        | none =>
            rw [present] at which
            obtain ⟨errno, rfl⟩ := which
            rw [stands.getName]
            simp [stands.cstring.bytesName_nameBytes]
        | some val =>
            rw [present] at which
            obtain ⟨p, bytes, rfl, loaded, same⟩ := which
            simp [loaded, same]
      · have other : bytes ≠ nameBytes "platform".toList := by
          rwa [Ne, ← CString.bytesName_eq (by decide) bytes]
        rw [if_pos other, if_neg platform]
        simp

theorem Stands.collectPlatformDevices (stands : Stands fdt offset name node) :
    Fdt.collectPlatformDevices fdt offset = some (.ok (Kmorph.collectPlatformDevices node)) := by
  obtain ⟨devices, walked, which⟩ := @Stands.subnode _ _ _ _ stands "devices" (by decide)
  rw [Fdt.collectPlatformDevices, Kmorph.collectPlatformDevices, walked]
  simp only [Option.bind_eq_bind, Option.bind_some]
  cases found : fdtSubnode node "devices" with
  | none =>
      rw [found] at which
      rw [if_pos which]
      rfl
  | some child =>
      rw [found] at which
      obtain ⟨name, stands⟩ := which
      have folded (children : List (Name × Node)) (out : List Name) :
          children.foldl (fun out child => out ++ (platformName child).toList) out =
            out ++ children.filterMap platformName := by
        induction children generalizing out with
        | nil => rw [List.foldl_nil, List.filterMap_nil, List.append_nil]
        | cons child children ih =>
            rw [List.foldl_cons, ih, List.filterMap_cons]
            cases platformName child <;> simp
      have run : fdtForEachSubnode fdt devices [] (Fdt.collectPlatformDevice fdt) =
          some (child.children.foldlM (fun out child => .ok (out ++ (platformName child).toList)) []) :=
        stands.forEachSubnode (fun _ _ _ stands out => stands.collectPlatformDevice out) []
      rw [if_neg (by have := stands.nonneg; omega), run, foldlM_ok, folded]
      rfl

theorem Stands.readChunks {tree : Node} {root : Name} (stands : Stands fdt offset name node) (whole : Stands fdt 0 root tree)
    (behind : Node → UInt32) (freeCpus : List UInt64) :
    ∃ read, Fdt.dtReadPool.readChunks fdt offset freeCpus = some read ∧ (Follows fdt tree behind → read =
      if Kmorph.sumChunks node = 0 then .error (-ENOENT) else
        (Kmorph.collectPoolPci behind tree).map fun devices => {
          freeCpus
          totalBytes := Kmorph.sumChunks node
          freeBytes := if Kmorph.sumInstanceMemory tree < Kmorph.sumChunks node then
            Kmorph.sumChunks node - Kmorph.sumInstanceMemory tree else 0
          devices
          platformDevices := Kmorph.collectPlatformDevices node }) := by
  rw [Fdt.dtReadPool.readChunks, stands.sumChunks]
  simp only [Option.bind_eq_bind, Option.bind_some]
  by_cases empty : Kmorph.sumChunks node = 0
  · rw [if_pos empty, if_pos empty]
    exact ⟨_, rfl, fun _ => rfl⟩
  · obtain ⟨ids, collected, same⟩ := whole.collectPoolPci behind
    rw [if_neg empty, if_neg empty, whole.sumInstanceMemory]
    simp only [Option.bind_some]
    rw [collected]
    simp only [Option.bind_some]
    cases ids with
    | error errno =>
        refine ⟨_, rfl, fun follows => ?_⟩
        rw [← same follows]
        rfl
    | ok devices =>
        simp only
        rw [stands.collectPlatformDevices]
        refine ⟨_, rfl, fun follows => ?_⟩
        rw [← same follows]
        rfl

end Pool

end Kmorph.Fdt
