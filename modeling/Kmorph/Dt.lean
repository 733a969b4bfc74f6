import Kmorph.DtCore
import Kmorph.Fdt
import Kmorph.HostTree
import Kmorph.Pool

/-!
The blobs of `lib/dt.c` as bytes: every builder writes names that fit, so what it
returns is read back as the tree it emitted.
-/

namespace Kmorph

open Fdt

/-- The names of a node and of all below it are ones that the writer takes and a reader finds again. -/
def Writes (child : Name × Node) : Prop := ∀ token ∈ child.2.tokens child.1, ValidToken token ∧ ShortName token

section Writes

variable {name : Name} {props : List (Name × List UInt8)} {children : List (Name × Node)}

theorem mem_forest {token : FdtToken} :
    token ∈ Node.forest children ↔ ∃ child ∈ children, token ∈ child.2.tokens child.1 := by
  induction children with
  | nil => simp [Node.forest]
  | cons child children ih =>
      rw [Node.forest, List.mem_append, ih]
      simp

theorem writes_mk :
    Writes (name, .mk props children) ↔
      CString name ∧ (∀ prop ∈ props, CString prop.1 ∧ prop.1.length < 64) ∧ ∀ child ∈ children, Writes child := by
  simp only [Writes, Node.tokens, List.mem_cons, List.mem_append, List.mem_map, mem_forest, List.not_mem_nil, or_false]
  constructor
  · intro all
    refine ⟨(all (.enter name) (.inl rfl)).1, ?_, ?_⟩
    · intro prop member
      exact all (.item prop) (.inr (.inl ⟨prop, member, rfl⟩))
    · intro child member token inside
      exact all token (.inr (.inr (.inl ⟨child, member, inside⟩)))
  · rintro ⟨string, named, below⟩ token (rfl | ⟨prop, member, rfl⟩ | ⟨child, member, inside⟩ | rfl)
    · exact ⟨string, trivial⟩
    · exact named prop member
    · exact below child member token inside
    · exact ⟨trivial, trivial⟩

/-- A node whose property names are fixed. -/
theorem writes_fixed (string : CString name) (named : props.all fun prop => decide (CString prop.1 ∧ prop.1.length < 64))
    (below : ∀ child ∈ children, Writes child) : Writes (name, .mk props children) := by
  refine writes_mk.mpr ⟨string, ?_, below⟩
  intro prop member
  exact of_decide_eq_true (List.all_eq_true.mp named prop member)

theorem Fdt.CString.append {first second : Name} (left : CString first) (right : CString second) :
    CString (first ++ second) := by
  intro c member
  rcases List.mem_append.mp member with inside | inside
  · exact left c inside
  · exact right c inside

theorem cstring_of_isXdigit {text : List Char} (digits : ∀ c ∈ text, isXdigit c = true) : CString text := by
  intro c member
  have digit := isXdigit_iff.mp (digits c member)
  omega

theorem cstring_formatUnsigned (n : ℕ) : CString (formatUnsigned n) :=
  cstring_of_isXdigit fun c member => isXdigit_of_isDigit (isDigit_formatUnsigned n c member)

theorem cstring_hex (n : ℕ) : CString (hex n) := cstring_of_isXdigit (isXdigit_hex n)

theorem Fdt.CString.pciNodeName {id : List Char} (string : CString id) : CString (Kmorph.pciNodeName id) := by
  intro c member
  obtain ⟨d, inside, rfl⟩ := List.mem_map.mp member
  split
  · decide
  · exact CString.append (by decide) string d inside

end Writes

/-- The names of the nodes that a builder makes from its arguments. -/
def DtRequest.Strings : DtRequest → Prop
  | .instanceCreate a =>
      (∀ name ∈ a.platformDevices, CString name) ∧ ∀ ht ∈ a.hostTree, ∀ d ∈ ht.devices, CString d.id
  | .poolBaseline a => (∀ name ∈ a.platformDevices, CString name) ∧ ∀ d ∈ a.devices, CString d.id
  | .instanceRemove _ | .overlay _ | .poolDeviceAdd _ | .foreignBaseline _ => True

section Builders

variable {name : Name} {props : List (Name × List UInt8)} {child : Name × Node} {nodes more : List (Name × Node)}

theorem writes_leaf (string : CString name) (named : props.all fun prop => decide (CString prop.1 ∧ prop.1.length < 64)) :
    Writes (name, .mk props []) :=
  writes_fixed string named (by simp)

theorem writes_one (inside : Writes child) : ∀ c ∈ [child], Writes c := List.forall_mem_singleton.mpr inside

theorem writes_cons (first : Writes child) (others : ∀ c ∈ nodes, Writes c) : ∀ c ∈ child :: nodes, Writes c :=
  List.forall_mem_cons.mpr ⟨first, others⟩

theorem writes_append (first : ∀ child ∈ nodes, Writes child) (second : ∀ child ∈ more, Writes child) :
    ∀ child ∈ nodes ++ more, Writes child := List.forall_mem_append.mpr ⟨first, second⟩

theorem writes_if {present : Prop} [Decidable present] (inside : Writes child) :
    ∀ c ∈ if present then [child] else [], Writes c := by
  split
  · exact writes_one inside
  · simp

/-- Nodes made one by one from a list. -/
theorem writes_map {α : Type} {items : List α} {emit : α → Name × Node} (each : ∀ item ∈ items, Writes (emit item)) :
    ∀ child ∈ items.map emit, Writes child := by
  intro child member
  obtain ⟨item, inside, rfl⟩ := List.mem_map.mp member
  exact each item inside

theorem writes_emitPlatformDeviceNode (string : CString name) : Writes (emitPlatformDeviceNode name) :=
  writes_leaf string rfl

theorem writes_overlayFragment (index : ℕ) (target : List Char) (inside : Writes child) :
    Writes (overlayFragment index target child) := by
  refine writes_fixed (CString.append (by decide) (cstring_formatUnsigned index)) rfl (writes_one ?_)
  exact writes_fixed (by decide) rfl (writes_one inside)

theorem writes_emitDeviceAdd (index : ℕ) (target : List Char) (devices : List DeviceId) :
    Writes (emitDeviceAdd index target devices) := by
  refine writes_overlayFragment index target (writes_fixed (by decide) rfl (writes_map ?_))
  intro item _
  exact writes_leaf (CString.append (by decide) (cstring_formatUnsigned item.2)) rfl

theorem writes_overlayTree (target : List Char) (inside : ∀ child ∈ nodes, Writes child) :
    Writes ([], overlayTree target nodes) := by
  refine writes_fixed (by decide) rfl (writes_one ?_)
  exact writes_fixed (by decide) rfl (writes_one (writes_fixed (by decide) rfl inside))

theorem writes_emitPciDeviceNode {d : PciIds} (string : CString d.id) : Writes (emitPciDeviceNode d) := by
  refine writes_leaf string.pciNodeName ?_
  by_cases iommu : d.iommu ≠ 0
  · rw [if_pos iommu]
    rfl
  · rw [if_neg iommu]
    rfl

theorem writes_emitVmcore (vi : VmcoreInfo) : Writes (emitVmcore vi) := by
  refine writes_fixed (by decide) ?_ (writes_append (writes_if ?_) (writes_if ?_))
  · by_cases has : vi.hasPageOffset
    · rw [if_pos has]
      rfl
    · rw [if_neg has]
      rfl
  · exact writes_leaf (by decide) rfl
  · exact writes_leaf (by decide) rfl

theorem writes_hostTree {ht : HostTree} {node : Node} (emits : hostTreeEmit ht = .ok node)
    (strings : ∀ d ∈ ht.devices, CString d.id) : Writes (HOST_TREE_NODE.toList, node) := by
  rw [hostTreeEmit] at emits
  split at emits
  · cases emits
  · cases emits
    refine writes_fixed (by decide) rfl (writes_append (writes_append (writes_map ?_) (writes_if ?_)) (writes_if ?_))
    · intro r _
      exact writes_leaf (CString.append (by decide) (cstring_hex _)) rfl
    · exact writes_fixed (by decide) rfl (writes_map fun d member => writes_emitPciDeviceNode (strings d member))
    · exact writes_emitVmcore _

theorem writes_instanceResources {a : InstanceArgs} (strings : ∀ name ∈ a.platformDevices, CString name) :
    Writes (instanceResources a) := by
  refine writes_fixed (by decide) rfl (writes_if ?_)
  refine writes_fixed (by decide) rfl (writes_map ?_)
  intro name member
  exact writes_emitPlatformDeviceNode (strings name member)

theorem writes_instanceChosen {hostTree : Option HostTree} (chosen : instanceChosen hostTree = .ok nodes)
    (strings : ∀ ht ∈ hostTree, ∀ d ∈ ht.devices, CString d.id) : ∀ child ∈ nodes, Writes child := by
  cases hostTree with
  | none =>
      cases chosen
      simp
  | some ht =>
      rw [instanceChosen] at chosen
      cases emits : hostTreeEmit ht with
      | error errno =>
          rw [emits] at chosen
          cases chosen
      | ok node =>
          rw [emits] at chosen
          cases chosen
          refine writes_one (writes_fixed ?_ rfl (writes_one (writes_hostTree emits (strings ht rfl))))
          decide

theorem writes_buildInstanceCreate {a : InstanceArgs} {tree : Node} (built : buildInstanceCreate a = .ok tree)
    (strings : (DtRequest.instanceCreate a).Strings) : Writes ([], tree) := by
  rw [buildInstanceCreate] at built
  cases chosen : instanceChosen a.hostTree with
  | error errno =>
      rw [chosen] at built
      cases built
  | ok nodes =>
      rw [chosen] at built
      cases built
      refine writes_fixed (by decide) rfl (writes_cons ?_ (writes_if (writes_emitDeviceAdd 1 _ _)))
      refine writes_overlayFragment 0 _ (writes_fixed (by decide) rfl (writes_cons ?_ ?_))
      · exact writes_instanceResources strings.1
      · exact writes_instanceChosen chosen strings.2

theorem writes_buildPoolBaseline {a : PoolArgs} (strings : (DtRequest.poolBaseline a).Strings) :
    Writes ([], buildPoolBaseline a) := by
  refine writes_fixed (by decide) rfl (writes_one ?_)
  refine writes_fixed (by decide) rfl
    (writes_append (writes_append (writes_map ?_) (writes_if ?_)) (writes_if ?_))
  · intro claim _
    exact writes_leaf (by decide) rfl
  · refine writes_leaf ?_ rfl
    split <;> decide
  · refine writes_fixed (by decide) rfl (writes_append (writes_map ?_) (writes_map ?_))
    · intro d member
      exact writes_leaf (strings.2 d member).pciNodeName rfl
    · intro name member
      exact writes_emitPlatformDeviceNode (strings.1 name member)

theorem writes_overlay (o : Overlay) : Writes ([], o.tree) := by
  cases o with
  | adopt name cpus memory =>
      refine writes_overlayTree _ (writes_append (writes_if ?_) (writes_if ?_))
      · refine writes_fixed (by decide) rfl (writes_map ?_)
        intro id _
        exact writes_leaf (CString.append (by decide) (cstring_formatUnsigned _)) rfl
      · refine writes_fixed (by decide) rfl (writes_map ?_)
        intro item _
        exact writes_leaf (CString.append (by decide) (cstring_formatUnsigned item.2)) rfl
  | deviceAdd name id => exact writes_fixed (by decide) rfl (writes_one (writes_emitDeviceAdd 0 _ _))
  | iommuAdd name base =>
      refine writes_overlayTree _ (writes_one ?_)
      exact writes_fixed (by decide) rfl (writes_one (writes_leaf (by decide) rfl))

theorem writes_buildForeignBaseline (t : Takeable) : Writes ([], buildForeignBaseline t) := by
  refine writes_fixed (by decide) rfl (writes_one ?_)
  refine writes_fixed (by decide) rfl (writes_map ?_)
  intro item _
  exact writes_leaf (CString.append (by decide) (cstring_formatUnsigned item.2)) rfl

end Builders

theorem DtRequest.writable {r : DtRequest} {tree : Node} (strings : r.Strings) (built : r.tree = .ok tree) :
    Writable tree := by
  change Writes ([], tree)
  cases r with
  | instanceCreate a =>
      rw [DtRequest.tree] at built
      split at built
      · cases built
      · exact writes_buildInstanceCreate built strings
  | instanceRemove name =>
      cases built
      exact writes_overlayTree _ (writes_one (writes_leaf (by decide) rfl))
  | overlay o =>
      cases o with
      | adopt name cpus memory =>
          rw [DtRequest.tree] at built
          split at built
          · cases built
          · cases built
            exact writes_overlay _
      | deviceAdd name id | iommuAdd name base =>
          cases built
          exact writes_overlay _
  | poolBaseline a =>
      rw [DtRequest.tree] at built
      split at built
      · cases built
      · cases built
        exact writes_buildPoolBaseline strings
  | poolDeviceAdd devices =>
      rw [DtRequest.tree] at built
      split at built
      · cases built
      · cases built
        exact writes_fixed (by decide) rfl (writes_one (writes_emitDeviceAdd 0 _ _))
  | foreignBaseline t =>
      rw [DtRequest.tree] at built
      split at built
      · cases built
      · cases built
        exact writes_buildForeignBaseline t

theorem DtRequest.tree_error {r : DtRequest} {errno : Int} (refused : r.tree = .error errno) : errno = -EINVAL := by
  cases r with
  | instanceCreate a =>
      rw [DtRequest.tree] at refused
      split at refused
      · exact (Except.error.inj refused).symm
      · cases host : a.hostTree with
        | none =>
            rw [buildInstanceCreate, host] at refused
            cases refused
        | some ht =>
            rw [buildInstanceCreate, host, instanceChosen, hostTreeEmit] at refused
            split at refused
            · exact (Except.error.inj refused).symm
            · cases refused
  | overlay o =>
      cases o with
      | adopt name cpus memory =>
          rw [DtRequest.tree] at refused
          split at refused
          · exact (Except.error.inj refused).symm
          · cases refused
      | deviceAdd name id | iommuAdd name base => cases refused
  | instanceRemove name => cases refused
  | poolBaseline a | poolDeviceAdd devices | foreignBaseline t =>
      rw [DtRequest.tree] at refused
      split at refused
      · exact (Except.error.inj refused).symm
      · cases refused

theorem DtRequest.emission_of_tree {r : DtRequest} {tree : Node} (emitted : r.tree = .ok tree) :
    r.emission = .ok (treeEmission tree) := by
  rw [DtRequest.emission, emitted]
  rfl

/-- A builder that emits no tree returns `-EINVAL`, before its first call or behind the last. -/
theorem DtRequest.emission_of_error {r : DtRequest} (refused : r.tree = .error (-EINVAL)) :
    r.emission = .error (-EINVAL) ∨ ∃ a, r = .instanceCreate a ∧ r.emission = .ok ⟨instanceCreateStart a, -EINVAL⟩ := by
  rw [DtRequest.emission, refused]
  cases r with
  | instanceCreate a =>
      simp only
      split
      · exact .inl rfl
      · exact .inr ⟨a, rfl, rfl⟩
  | _ => exact .inl rfl

theorem instanceCreateStart_writable {a : InstanceArgs} (strings : (DtRequest.instanceCreate a).Strings) :
    ∀ token ∈ instanceCreateStart a, ValidToken token ∧ ShortName token := by
  have enter {name : String} (string : CString name.toList) :
      ValidToken (.enter name.toList) ∧ ShortName (.enter name.toList) := ⟨string, trivial⟩
  have item {name : String} {value : List UInt8} (string : CString name.toList ∧ name.toList.length < 64) :
      ValidToken (.item (name.toList, value)) ∧ ShortName (.item (name.toList, value)) := string
  intro token member
  rw [instanceCreateStart, List.mem_append, List.mem_append] at member
  simp only [List.mem_cons, List.not_mem_nil, or_false] at member
  rcases member with ((rfl | rfl | rfl | rfl | rfl | rfl | rfl) | resources) | (rfl | rfl)
  · exact @enter "" (by decide)
  · exact item (by decide)
  · exact enter (by decide)
  · exact item (by decide)
  · exact enter (by decide)
  · exact enter (by decide)
  · exact item (by decide)
  · exact writes_instanceResources strings.1 token resources
  · exact enter (by decide)
  · exact enter (by decide)

/-- What a builder comes to: the blob of its tree, an end behind its calls, or one before them. -/
theorem dtBuild_cases {r : DtRequest} (strings : r.Strings) (memory : BuildMemory) :
    (∃ tree out, r.tree = .ok tree ∧ dtBuild memory r = some out ∧
      Fdt.Built (copyMemory memory (tree.tokens [])) (treeEmission tree) out) ∨
    r.tree = .error (-EINVAL) ∧
      (dtBuild memory r = some (.error (-EINVAL)) ∨
        ∃ e out, r.emission = .ok e ∧ e.ret ≠ 0 ∧ dtBuild memory r = some out ∧
          Fdt.Built (copyMemory memory e.calls) e out) := by
  have built {e : Emission} (emits : r.emission = .ok e) (apart : e.ret ≠ -FDT_ERR_NOSPACE)
      (writable : ∀ token ∈ e.calls, ValidToken token ∧ ShortName token) :
      ∃ out, dtBuild memory r = some out ∧ Fdt.Built (copyMemory memory e.calls) e out := by
    rw [dtBuild, emits]
    exact fdtutilBuild_built writable apart (copyMemory memory e.calls)
  cases emitted : r.tree with
  | ok tree =>
      obtain ⟨out, done, outcome⟩ := built (DtRequest.emission_of_tree emitted)
        (show (0 : Int) ≠ -FDT_ERR_NOSPACE by decide) (r.writable strings emitted)
      exact .inl ⟨tree, out, rfl, done, outcome⟩
  | error errno =>
      obtain rfl := DtRequest.tree_error emitted
      rcases DtRequest.emission_of_error emitted with refused | ⟨a, rfl, start⟩
      · exact .inr ⟨rfl, .inl (by rw [dtBuild, refused])⟩
      · obtain ⟨out, done, outcome⟩ := built start (show -EINVAL ≠ -FDT_ERR_NOSPACE by decide)
          (instanceCreateStart_writable strings)
        exact .inr ⟨rfl, .inr ⟨_, out, start, show -EINVAL ≠ 0 by decide, done, outcome⟩⟩

theorem dtBuild_flat {r : DtRequest} (strings : r.Strings) {memory : BuildMemory} {fdt : List UInt8}
    (built : dtBuild memory r = some (.ok fdt)) : ∃ tree, r.tree = .ok tree ∧ Flat fdt (tree.tokens []) := by
  rcases dtBuild_cases strings memory with ⟨tree, out, emitted, done, outcome⟩ | ⟨-, done | ⟨e, out, -, failed, done, outcome⟩⟩
  · rw [done] at built
    cases built
    cases outcome with
    | blob complete flat => exact ⟨tree, emitted, flat⟩
  · rw [done] at built
    cases built
  · rw [done] at built
    cases built
    cases outcome with
    | blob complete => exact absurd complete failed

theorem copyMemory_refused {memory : BuildMemory} {calls : List FdtToken} {attempt call : ℕ}
    (refused : (copyMemory memory calls).cells attempt call = false) :
    (copiesCells [] calls)[call]? = some true ∧ memory.cells attempt call = false := by
  simp only [copyMemory, Bool.or_eq_false_iff, Bool.not_eq_false', List.getD_eq_getElem?_getD] at refused
  refine ⟨?_, refused.2⟩
  cases copies : (copiesCells [] calls)[call]? with
  | none => simp [copies] at refused
  | some copied => simpa [copies] using refused.1

theorem dtBuild_granted {r : DtRequest} (strings : r.Strings) {tree : Node} (emitted : r.tree = .ok tree)
    (small : neededSize tree ≤ 4 * 1024 * 1024) : ∃ fdt, dtBuild .all r = some (.ok fdt) := by
  rcases dtBuild_cases strings .all with ⟨other, out, same, built, outcome⟩ | ⟨refused, -⟩
  · rw [emitted] at same
    cases same
    cases outcome with
    | blob => exact ⟨_, built⟩
    | refused asked refused => cases refused
    | gaveUp asked gaveUp =>
        obtain ⟨call, -, refused, -⟩ := gaveUp
        cases (copyMemory_refused refused).2
    | failed failed => exact absurd rfl failed
    | large large => exact absurd small (Nat.not_le.mpr large)
  · rw [emitted] at refused
    cases refused

/-- What keeps a builder from a blob once its calls have begun. -/
inductive Unbuilt (memory : BuildMemory) (e : Emission) : Int → Prop
  | copy {doubled call : ℕ} (asked : e.Asked doubled) (copies : (copiesCells [] e.calls)[call]? = some true)
      (refused : memory.cells doubled call = false) : Unbuilt memory e (-EINVAL)
  | buffer {doubled : ℕ} (asked : e.Asked doubled) (refused : memory.buffer (attemptSize doubled) = false) :
      Unbuilt memory e (-ENOMEM)
  | large (large : 4 * 1024 * 1024 < e.needs) : Unbuilt memory e (-ENOSPC)

theorem Fdt.Built.kept {memory : BuildMemory} {e : Emission} {errno : Int}
    (built : Fdt.Built (copyMemory memory e.calls) e (.error errno)) :
    e.ret ≠ 0 ∧ errno = -EINVAL ∨ Unbuilt memory e errno := by
  cases built with
  | refused asked refused => exact .inr (.buffer asked refused)
  | gaveUp asked gaveUp =>
      obtain ⟨call, -, refused, -⟩ := gaveUp
      obtain ⟨copies, none⟩ := copyMemory_refused refused
      exact .inr (.copy asked copies none)
  | failed failed => exact .inl ⟨failed, rfl⟩
  | large large => exact .inr (.large large)

/-- Every blob `lib/dt.c` builds is accepted and read back as the tree its builder emitted. Otherwise
the arguments are refused, memory that is asked for is not granted (a buffer, or the copy of some
cells), or the calls of the builder take more than 4 MiB. -/
theorem dtBuild_reads (r : DtRequest) (strings : r.Strings) (memory : BuildMemory) :
    ∃ out, dtBuild memory r = some out ∧
      match out with
      | .ok fdt => ∃ tree, r.tree = .ok tree ∧ fdtutilCheck fdt = 0 ∧ Reads fdt 0 [] tree
      | .error errno => errno = -EINVAL ∧ r.tree = .error (-EINVAL) ∨
          ∃ e, r.emission = .ok e ∧ Unbuilt memory e errno := by
  rcases dtBuild_cases strings memory with
    ⟨tree, out, emitted, built, outcome⟩ | ⟨refused, built | ⟨e, out, emits, failed, built, outcome⟩⟩
  · refine ⟨out, built, ?_⟩
    cases out with
    | ok fdt =>
        cases outcome with
        | blob done flat => exact ⟨tree, emitted, flat.accepted, Stands.reads tree (Flat.stands flat)⟩
    | error errno =>
        refine .inr ⟨_, DtRequest.emission_of_tree emitted, outcome.kept.resolve_left ?_⟩
        rintro ⟨failed, -⟩
        exact failed rfl
  · exact ⟨_, built, .inl ⟨rfl, refused⟩⟩
  · refine ⟨out, built, ?_⟩
    cases out with
    | ok fdt =>
        cases outcome with
        | blob done => exact absurd done failed
    | error errno =>
        rcases outcome.kept with ⟨-, invalid⟩ | kept
        · exact .inl ⟨invalid, refused⟩
        · exact .inr ⟨e, emits, kept⟩

/-- A pool of one function and the serial port. -/
def sampleBaseline : DtRequest :=
  .poolBaseline ⟨[2], 0x40000000, none, [⟨"0000:00:1f.2".toList, 0x8086, 0x2922, 0x10601, 0⟩], ["serial8250".toList]⟩

theorem dtBuild_reads_baseline :
    sampleBaseline.Strings ∧ ∃ fdt tree, dtBuild .all sampleBaseline = some (.ok fdt) ∧
      sampleBaseline.tree = .ok tree ∧ fdtutilCheck fdt = 0 ∧ Reads fdt 0 [] tree := by
  have strings : sampleBaseline.Strings := ⟨by decide, by decide⟩
  obtain ⟨out, built, outcome⟩ := dtBuild_reads sampleBaseline strings .all
  cases out with
  | ok fdt =>
      obtain ⟨tree, emitted, accepted, reads⟩ := outcome
      exact ⟨strings, fdt, tree, built, emitted, accepted, reads⟩
  | error errno =>
      rcases outcome with ⟨-, refused⟩ | ⟨e, emits, kept⟩
      · cases refused
      · cases emits
        cases kept with
        | copy asked copies refused => cases refused
        | buffer asked refused => cases refused
        | large large => exact absurd large (by decide +kernel)

end Kmorph
