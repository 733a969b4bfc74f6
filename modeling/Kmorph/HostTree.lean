import Kmorph.Fallible
import Kmorph.HostTreeCore
import Kmorph.Ranges
import Mathlib.Data.List.Nodup
import Mathlib.Data.Nat.Digits.Lemmas

/-!
The successor reads back the host tree its predecessor emitted: the writer and
the reader run on different kernels and meet in a directory listed by name.
-/

namespace Kmorph

open BigEndian

theorem fdt64ToCpu_cpuToFdt64 (v : UInt64) : fdt64ToCpu (cpuToFdt64 v) = v := by
  have bound : v.toNat < 256 ^ 8 := v.toNat_lt
  rw [fdt64ToCpu, cpuToFdt64, decode_encode_of_lt bound, UInt64.ofNat_toNat]

theorem fdt32ToCpu_cpuToFdt32 (v : UInt32) : fdt32ToCpu (cpuToFdt32 v) = v := by
  have bound : v.toNat < 256 ^ 4 := v.toNat_lt
  rw [fdt32ToCpu, cpuToFdt32, decode_encode_of_lt bound, UInt32.ofNat_toNat]

@[simp] theorem length_cpuToFdt64 (v : UInt64) : (cpuToFdt64 v).length = 8 := length_encode 8 _

@[simp] theorem length_cpuToFdt32 (v : UInt32) : (cpuToFdt32 v).length = 4 := length_encode 4 _

theorem reg_base (base size : UInt64) :
    fdt64ToCpu ((cpuToFdt64 base ++ cpuToFdt64 size).take 8) = base := by
  rw [List.take_left' (length_cpuToFdt64 base), fdt64ToCpu_cpuToFdt64]

theorem reg_size (base size : UInt64) :
    fdt64ToCpu ((cpuToFdt64 base ++ cpuToFdt64 size).drop 8) = size := by
  rw [List.drop_left' (length_cpuToFdt64 base), fdt64ToCpu_cpuToFdt64]

theorem fdtutilCellsToCpulist_prop (ids : List UInt64) :
    fdtutilCellsToCpulist (ids.flatMap cpuToFdt64) = .ok ids := by
  have cells : ids.flatMap cpuToFdt64 = (ids.map UInt64.toNat).flatMap (encode 8) := by
    rw [List.flatMap_map]
    rfl
  have fits : ∀ n ∈ ids.map UInt64.toNat, n < 256 ^ 8 := by
    intro n member
    obtain ⟨id, _, rfl⟩ := List.mem_map.mp member
    exact id.toNat_lt
  have length : (ids.flatMap cpuToFdt64).length = 8 * ids.length := by
    rw [cells, length_flatMap_encode, List.length_map]
  rw [fdtutilCellsToCpulist, if_neg (by omega), length, Nat.mul_div_cancel_left _ (by decide), cells]
  have read := words_flatMap_encode fits
  rw [List.length_map] at read
  rw [read, List.map_map]
  simp [Function.comp_def]

theorem rangesOfCells_cells (ranges : List Range) :
    rangesOfCells (ranges.flatMap fun r => [r.base.toNat, r.size.toNat]) = ranges := by
  induction ranges with
  | nil => rfl
  | cons r ranges ih => simp [rangesOfCells, ih]

theorem fdtutilCellsToRangelist_prop (ranges : List Range) :
    fdtutilCellsToRangelist (fdtutilPropRegs ranges).2 = .ok ranges := by
  have cells : (fdtutilPropRegs ranges).2 =
      (ranges.flatMap fun r => [r.base.toNat, r.size.toNat]).flatMap (encode 8) := by
    simp [fdtutilPropRegs, cpuToFdt64, List.flatMap_assoc]
  have fits : ∀ n ∈ ranges.flatMap fun r => [r.base.toNat, r.size.toNat], n < 256 ^ 8 := by
    intro n member
    obtain ⟨r, _, inside⟩ := List.mem_flatMap.mp member
    simp only [List.mem_cons, List.not_mem_nil, or_false] at inside
    rcases inside with rfl | rfl
    · exact r.base.toNat_lt
    · exact r.size.toNat_lt
  have count : (ranges.flatMap fun r => [r.base.toNat, r.size.toNat]).length = 2 * ranges.length := by
    simp [List.length_flatMap, Nat.mul_comm]
  have length : (fdtutilPropRegs ranges).2.length = 16 * ranges.length := by
    rw [cells, length_flatMap_encode, count]
    omega
  have read := words_flatMap_encode fits
  rw [count] at read
  rw [fdtutilCellsToRangelist, if_neg (by omega), length, Nat.mul_div_cancel_left _ (by decide), cells,
    read, rangesOfCells_cells]

def hexValue (c : Char) : ℕ :=
  if c.toNat < 'a'.toNat then c.toNat - '0'.toNat else c.toNat - 'a'.toNat + 10

theorem hexValue_hexDigit {n : ℕ} (digit : n < 16) : hexValue (hexDigit n) = n := by
  have all : ∀ n : Fin 16, hexValue (hexDigit n) = n := by decide
  exact all ⟨n, digit⟩

theorem hexValue_digits {digits : List ℕ} (small : ∀ d ∈ digits, d < 16) :
    digits.foldr (fun d v => hexValue (hexDigit d) + 16 * v) 0 = Nat.ofDigits 16 digits := by
  induction digits with
  | nil => rfl
  | cons d digits ih =>
      rw [List.foldr_cons, ih fun e member => small e (by simp [member]),
        hexValue_hexDigit (small d (by simp)), Nat.ofDigits_cons]

theorem hex_injective : Function.Injective hex := by
  have value (n : ℕ) : (hex n).foldl (fun v c => hexValue c + 16 * v) 0 = n := by
    unfold hex
    split
    · rename_i zero
      rw [zero]
      rfl
    · rw [List.foldl_map, List.foldl_reverse,
        hexValue_digits fun d member => Nat.digits_lt_base (by decide) member, Nat.ofDigits_digits]
  intro m n same
  rw [← value m, ← value n, same]

theorem lookup_of_mem {β : Type} {entries : List (Name × β)} {name : Name} {value : β}
    (distinct : (entries.map Prod.fst).Nodup) (member : (name, value) ∈ entries) :
    entries.lookup name = some value := by
  induction entries with
  | nil => simp at member
  | cons entry entries ih =>
      rw [List.map_cons, List.nodup_cons] at distinct
      rcases List.mem_cons.mp member with rfl | later
      · simp
      · have other : name ≠ entry.1 := by
          rintro rfl
          exact distinct.1 (List.mem_map.mpr ⟨_, later, rfl⟩)
        rw [List.lookup_cons, beq_false_of_ne other]
        exact ih distinct.2 later

theorem lookup_eq_none {β : Type} {entries : List (Name × β)} {name : Name}
    (absent : name ∉ entries.map Prod.fst) : entries.lookup name = none := by
  induction entries with
  | nil => rfl
  | cons entry entries ih =>
      rw [List.map_cons, List.mem_cons, not_or] at absent
      rw [List.lookup_cons, beq_false_of_ne absent.1]
      exact ih absent.2

def emitted (ht : HostTree) : Node :=
  .mk (emitCells ++ [fdtutilPropCpulist "cpus".toList ht.cpus])
    (ht.ram.r.map emitMemory ++
      (if ht.devices ≠ [] then [dtEmitPciDevices ht.devices] else []) ++
      if vmcoreInfoPresent ht.vmcore then [emitVmcore ht.vmcore] else [])

theorem hostTreeEmit_emits {ht : HostTree} (cpus : ht.cpus ≠ []) (ram : ht.ram.r ≠ []) :
    hostTreeEmit ht = .ok (emitted ht) := by
  rw [hostTreeEmit, if_neg (by simp [cpus, ram])]
  rfl

theorem memoryNodeName_injective : Function.Injective memoryNodeName := by
  intro first second same
  exact UInt64.toNat_inj.mp (hex_injective (List.append_cancel_left same))

theorem memoryNodeName_ne {name : Name} (other : name.head? ≠ some 'm') (base : UInt64) :
    memoryNodeName base ≠ name := by
  rintro rfl
  exact other rfl

theorem memoryNames_nodup {ranges : List Range} (normal : Normal ranges) :
    (ranges.map fun r => memoryNodeName r.base).Nodup := by
  rw [List.Nodup, List.pairwise_map]
  refine normal.apart.imp ?_
  intro first second below same
  have base := memoryNodeName_injective same
  rw [base] at below
  omega

def otherNames (ht : HostTree) : List Name :=
  (if ht.devices ≠ [] then ["devices".toList] else []) ++
    if vmcoreInfoPresent ht.vmcore then ["vmcore".toList] else []

theorem emitted_names (ht : HostTree) :
    (emitted ht).children.map Prod.fst =
      (ht.ram.r.map fun r => memoryNodeName r.base) ++ otherNames ht := by
  simp only [emitted, Node.children, otherNames, List.map_append, List.map_map, List.append_assoc]
  congr 2
  · split <;> rfl
  · split <;> rfl

theorem otherNames_cases {ht : HostTree} {name : Name} (member : name ∈ otherNames ht) :
    name = "devices".toList ∨ name = "vmcore".toList := by
  unfold otherNames at member
  rcases List.mem_append.mp member with inside | inside
  · split at inside
    · exact Or.inl (by simpa using inside)
    · simp at inside
  · split at inside
    · exact Or.inr (by simpa using inside)
    · simp at inside

theorem emitted_distinct {ht : HostTree} (normal : Normal ht.ram.r) :
    ((emitted ht).children.map Prod.fst).Nodup := by
  rw [emitted_names, List.nodup_append]
  refine ⟨memoryNames_nodup normal, ?_, ?_⟩
  · unfold otherNames
    split <;> split <;> simp
  · intro name member other otherMember same
    obtain ⟨r, _, rfl⟩ := List.mem_map.mp member
    rcases otherNames_cases otherMember with rfl | rfl
    · exact memoryNodeName_ne (by decide) _ same
    · exact memoryNodeName_ne (by decide) _ same

theorem fileRead_child {dir child : Node} {name next : Name} {rest : List Name}
    (found : dir.children.lookup name = some child) :
    fileRead dir (name :: next :: rest) = fileRead child (next :: rest) := by
  rw [fileRead, found]

theorem fileRead_absent {dir : Node} {name next : Name} {rest : List Name}
    (absent : dir.children.lookup name = none) :
    fileRead dir (name :: next :: rest) = .error (-ENOENT) := by
  rw [fileRead, absent]

theorem emitted_memory {ht : HostTree} (normal : Normal ht.ram.r) {r : Range} (member : r ∈ ht.ram.r) :
    fileRead (emitted ht) [memoryNodeName r.base, "reg".toList] =
      .ok (cpuToFdt64 r.base ++ cpuToFdt64 r.size) := by
  have found : (emitted ht).children.lookup (memoryNodeName r.base) = some (emitMemory r).2 := by
    refine lookup_of_mem (emitted_distinct normal) ?_
    refine List.mem_append_left _ (List.mem_append_left _ ?_)
    exact List.mem_map.mpr ⟨r, member, rfl⟩
  rw [fileRead_child found]
  rfl

theorem readRegFile_emitted {ht : HostTree} (normal : Normal ht.ram.r) {r : Range}
    (member : r ∈ ht.ram.r) (ram : Rangeset) :
    readRegFile (emitted ht) (memoryNodeName r.base) ram =
      .ok (rangesetAdd true ram r.base r.size).2 := by
  have added := rangesetAdd_granted ram r.base r.size (normal.nonempty r member)
    (normal.noWrap r member)
  rw [readRegFile, emitted_memory normal member]
  simp only [List.length_append, length_cpuToFdt64, reg_base, reg_size, added, if_true]

theorem readMemory_emitted {ht : HostTree} (normal : Normal ht.ram.r) {ranges : List Range}
    (inside : ∀ r ∈ ranges, r ∈ ht.ram.r) {ram : Rangeset} (start : Normal ram.r) :
    ∃ read, (ranges.map fun r => memoryNodeName r.base).foldlM
        (fun ram node => readRegFile (emitted ht) node ram) ram = .ok read ∧
      Normal read.r ∧ addresses read.r = addresses ram.r ∪ addresses ranges := by
  induction ranges generalizing ram with
  | nil => exact ⟨ram, rfl, start, by simp [addresses]⟩
  | cons r ranges ih =>
      have member := inside r (by simp)
      have added := rangesetAdd_granted ram r.base r.size (normal.nonempty r member)
        (normal.noWrap r member)
      obtain ⟨kept, union⟩ := rangesetAdd_correct start added
      obtain ⟨read, result, readNormal, readUnion⟩ :=
        ih (fun other later => inside other (by simp [later])) kept
      refine ⟨read, ?_, readNormal, ?_⟩
      · rw [List.map_cons, List.foldlM_cons, readRegFile_emitted normal member]
        exact result
      · rw [readUnion, union, Set.union_assoc]
        simp [addresses, Range.span]

theorem addresses_perm {first second : List Range} (perm : first.Perm second) :
    addresses first = addresses second := by
  ext address
  simp only [addresses, spans, SpanSets.mem_cover, List.mem_map, perm.mem_iff]

theorem scandir_memory (ht : HostTree) :
    ∃ ranges : List Range, ranges.Perm ht.ram.r ∧
      scandir (emitted ht) memoryNodeFilter = ranges.map fun r => memoryNodeName r.base := by
  have props : ((emitted ht).props.map Prod.fst).filter memoryNodeFilter = [] := rfl
  have memory : (ht.ram.r.map fun r => memoryNodeName r.base).filter memoryNodeFilter =
      ht.ram.r.map fun r => memoryNodeName r.base := by
    rw [List.filter_eq_self]
    intro name member
    obtain ⟨r, _, rfl⟩ := List.mem_map.mp member
    exact List.isPrefixOf_iff_prefix.mpr (List.prefix_append _ _)
  have others : (otherNames ht).filter memoryNodeFilter = [] := by
    rw [List.filter_eq_nil_iff]
    intro name member
    rcases otherNames_cases member with rfl | rfl <;> decide
  refine ⟨ht.ram.r.mergeSort fun a b => memoryNodeName a.base ≤ memoryNodeName b.base,
    List.mergeSort_perm _ _, ?_⟩
  rw [scandir, List.filter_append, props, List.nil_append, emitted_names, List.filter_append, memory,
    others, List.append_nil, List.map_mergeSort]
  intro a _ b _
  rfl

theorem readRam_emitted {ht : HostTree} (normal : Normal ht.ram.r) :
    ∃ ram, (scandir (emitted ht) memoryNodeFilter).foldlM
        (fun ram node => readRegFile (emitted ht) node ram) rangesetInit = .ok ram ∧
      ram.r = ht.ram.r := by
  obtain ⟨ranges, perm, names⟩ := scandir_memory ht
  obtain ⟨ram, read, readNormal, union⟩ := readMemory_emitted normal
    (fun r member => perm.mem_iff.mp member) (show Normal rangesetInit.r from normal_nil)
  refine ⟨ram, by rw [names, read], ?_⟩
  refine readNormal.eq_of_addresses_eq normal ?_
  rw [union, addresses_perm perm, show addresses rangesetInit.r = ∅ from addresses_nil, Set.empty_union]

def isHexDigit (c : Char) : Bool :=
  ('0'.toNat ≤ c.toNat && c.toNat ≤ '9'.toNat) || ('a'.toNat ≤ c.toNat && c.toNat ≤ 'f'.toNat) ||
    ('A'.toNat ≤ c.toNat && c.toNat ≤ 'F'.toNat)

/-- An id of the form `dddd:bb:ss.f`. -/
def PciId (id : List Char) : Prop :=
  ∃ d₁ d₂ d₃ d₄ b₁ b₂ s₁ s₂ f : Char,
    id = [d₁, d₂, d₃, d₄, ':', b₁, b₂, ':', s₁, s₂, '.', f] ∧
      ∀ c ∈ [d₁, d₂, d₃, d₄, b₁, b₂, s₁, s₂, f], isHexDigit c = true

theorem isHexDigit_plain {c : Char} (digit : isHexDigit c = true) :
    ¬ (c = ':' ∨ c = '.') ∧ 0 < c.toNat ∧ c.toNat < 256 := by
  have bounds : 48 ≤ c.toNat ∧ c.toNat ≤ 102 ∧ c.toNat ≠ 58 := by
    simp only [isHexDigit, Bool.or_eq_true, Bool.and_eq_true, decide_eq_true_eq, Char.reduceToNat] at digit
    omega
  refine ⟨?_, by omega, by omega⟩
  rintro (rfl | rfl) <;> simp at bounds

theorem pciNodeName_eq {d₁ d₂ d₃ d₄ b₁ b₂ s₁ s₂ f : Char}
    (digits : ∀ c ∈ [d₁, d₂, d₃, d₄, b₁, b₂, s₁, s₂, f], isHexDigit c = true) :
    pciNodeName [d₁, d₂, d₃, d₄, ':', b₁, b₂, ':', s₁, s₂, '.', f] =
      "pci_".toList ++ [d₁, d₂, d₃, d₄, '_', b₁, b₂, '_', s₁, s₂, '_', f] := by
  have kept (c : Char) (member : c ∈ [d₁, d₂, d₃, d₄, b₁, b₂, s₁, s₂, f]) :
      (if c = ':' ∨ c = '.' then '_' else c) = c :=
    if_neg (isHexDigit_plain (digits c member)).1
  simp only [List.mem_cons, List.not_mem_nil, or_false, forall_eq_or_imp, forall_eq] at kept
  delta pciNodeName
  simp [kept]

theorem pciNodeName_lt {first second : List Char} (firstId : PciId first) (secondId : PciId second)
    (below : first < second) : pciNodeName first < pciNodeName second := by
  obtain ⟨d₁, d₂, d₃, d₄, b₁, b₂, s₁, s₂, f, rfl, digits⟩ := firstId
  obtain ⟨d₁', d₂', d₃', d₄', b₁', b₂', s₁', s₂', f', rfl, digits'⟩ := secondId
  rw [pciNodeName_eq digits, pciNodeName_eq digits']
  simpa [List.cons_lt_cons_iff] using below

theorem cString_stringBytes {text : List Char} (plain : ∀ c ∈ text, 0 < c.toNat ∧ c.toNat < 256) :
    cString ((stringBytes text).map fun b => Char.ofNat b.toNat) = text := by
  have kept (c : Char) (member : c ∈ text) : Char.ofNat (UInt8.ofNat c.toNat).toNat = c := by
    rw [UInt8.toNat_ofNat', Nat.mod_eq_of_lt (plain c member).2, Char.ofNat_toNat]
  have bytes : (stringBytes text).map (fun b => Char.ofNat b.toNat) = text ++ ['\x00'] := by
    rw [stringBytes, List.map_append, List.map_map]
    exact congrArg (· ++ ['\x00']) ((List.map_congr_left kept).trans (List.map_id text))
  have whole : text.takeWhile (fun c => decide (c ≠ '\x00')) = text := by
    rw [List.takeWhile_eq_self_iff]
    intro c member
    rw [decide_eq_true_eq]
    rintro rfl
    exact absurd (plain _ member).1 (by decide)
  rw [bytes, cString, List.takeWhile_append_of_pos]
  · simp
  · exact List.takeWhile_eq_self_iff.mp whole

theorem PciId.plain {id : List Char} (valid : PciId id) :
    id.length = 12 ∧ ∀ c ∈ id, 0 < c.toNat ∧ c.toNat < 256 := by
  obtain ⟨d₁, d₂, d₃, d₄, b₁, b₂, s₁, s₂, f, rfl, digits⟩ := valid
  refine ⟨rfl, ?_⟩
  have plain (c : Char) (member : c ∈ [d₁, d₂, d₃, d₄, b₁, b₂, s₁, s₂, f]) :=
    (isHexDigit_plain (digits c member)).2
  simp only [List.mem_cons, List.not_mem_nil, or_false, forall_eq_or_imp, forall_eq] at plain ⊢
  refine ⟨plain.1, plain.2.1, plain.2.2.1, plain.2.2.2.1, by decide, plain.2.2.2.2.1, plain.2.2.2.2.2.1,
    by decide, plain.2.2.2.2.2.2.1, plain.2.2.2.2.2.2.2.1, by decide, plain.2.2.2.2.2.2.2.2⟩

theorem devices_names (devices : List PciIds) :
    (dtEmitPciDevices devices).2.children.map Prod.fst = devices.map fun d => pciNodeName d.id := by
  show (devices.map emitPciDeviceNode).map Prod.fst = _
  rw [List.map_map]
  rfl

section Devices

variable {ht : HostTree} (normal : Normal ht.ram.r) (valid : ∀ d ∈ ht.devices, PciId d.id)
  (ascending : ht.devices.Pairwise fun first second => first.id < second.id)

include valid ascending in
theorem deviceNames_ascending :
    (ht.devices.map fun d => pciNodeName d.id).Pairwise (· < ·) := by
  rw [List.pairwise_map]
  refine ascending.imp_of_mem ?_
  intro first second firstMember secondMember below
  exact pciNodeName_lt (valid first firstMember) (valid second secondMember) below

include normal in
theorem emitted_devices (some : ht.devices ≠ []) :
    (emitted ht).children.lookup "devices".toList = .some (dtEmitPciDevices ht.devices).2 := by
  refine lookup_of_mem (emitted_distinct normal) ?_
  refine List.mem_append_left _ (List.mem_append_right _ ?_)
  rw [if_pos some]
  exact List.mem_singleton.mpr rfl

include valid ascending in
theorem scandir_devices : scandir (dtEmitPciDevices ht.devices).2 pciNodeFilter =
    ht.devices.map fun d => pciNodeName d.id := by
  have all : (ht.devices.map fun d => pciNodeName d.id).filter pciNodeFilter =
      ht.devices.map fun d => pciNodeName d.id := by
    rw [List.filter_eq_self]
    intro name member
    obtain ⟨d, _, rfl⟩ := List.mem_map.mp member
    rfl
  have none : (dtEmitPciDevices ht.devices).2.props.map Prod.fst = [] := rfl
  rw [scandir, none, devices_names, List.nil_append, all]
  refine List.mergeSort_of_pairwise ((deviceNames_ascending valid ascending).imp ?_)
  intro first second below
  exact decide_eq_true (le_of_lt below)

include normal valid ascending in
theorem fileRead_device {d : PciIds} (member : d ∈ ht.devices) (prop : Name) :
    fileRead (emitted ht) ["devices".toList, pciNodeName d.id, prop] =
      fileRead (emitPciDeviceNode d).2 [prop] := by
  have found : (dtEmitPciDevices ht.devices).2.children.lookup (pciNodeName d.id) =
      some (emitPciDeviceNode d).2 := by
    refine lookup_of_mem ?_ (List.mem_map.mpr ⟨d, member, rfl⟩)
    rw [devices_names]
    refine (deviceNames_ascending valid ascending).imp ?_
    rintro first _ below rfl
    exact List.lt_irrefl first below
  rw [fileRead_child (emitted_devices normal (List.ne_nil_of_mem member)), fileRead_child found]

include normal valid ascending in
theorem readPciDevice_emitted {d : PciIds} (member : d ∈ ht.devices) :
    readPciDevice (emitted ht) (pciNodeName d.id) = .ok { d with iommu := 0 } := by
  have read (prop : Name) := fileRead_device normal valid ascending member prop
  have id : fileRead (emitted ht) ["devices".toList, pciNodeName d.id, "pci-id".toList] =
      .ok (stringBytes d.id) := (read _).trans rfl
  have word (prop : String) (v : UInt32)
      (found : fileRead (emitPciDeviceNode d).2 [prop.toList] = .ok (cpuToFdt32 v)) :
      readDeviceU32 (emitted ht) (pciNodeName d.id) prop = .ok v := by
    simp only [readDeviceU32, readOptional, read, found]
    simp [fdt32ToCpu_cpuToFdt32, bind, Except.bind]
  obtain ⟨length, plain⟩ := (valid d member).plain
  have accepted : ¬ (stringBytes d.id = [] ∨ (stringBytes d.id).length > PCI_ID_SIZE ∨
      (stringBytes d.id).getLast? ≠ some 0) := by
    simp [stringBytes, length, PCI_ID_SIZE]
  simp only [readPciDevice, id, word "vendor-id" d.vendor rfl, word "device-id" d.device rfl,
    word "class-code" d.classCode rfl, cString_stringBytes plain, bind, Except.bind, accepted, if_false]
  rfl

include normal valid ascending in
theorem readDevices_emitted :
    readDevices (emitted ht) = .ok (ht.devices.map fun d => { d with iommu := 0 }) := by
  by_cases none : ht.devices = []
  · have absent : (emitted ht).children.lookup "devices".toList = .none := by
      refine lookup_eq_none ?_
      rw [emitted_names, List.mem_append, not_or]
      refine ⟨?_, by rw [otherNames, if_neg (not_not.mpr none)]; split <;> simp⟩
      intro member
      obtain ⟨r, _, same⟩ := List.mem_map.mp member
      exact memoryNodeName_ne (by decide) _ same
    rw [readDevices, absent, none]
    rfl
  · rw [readDevices, emitted_devices normal none]
    simp only
    rw [scandir_devices valid ascending, List.mapM_map]
    exact Fallible.mapM_ok fun d member => readPciDevice_emitted normal valid ascending member

end Devices

def VmcoreInfo.trimmed (vi : VmcoreInfo) : VmcoreInfo where
  hasPageOffset := vi.hasPageOffset
  pageOffset := if vi.hasPageOffset then vi.pageOffset else 0
  vmcoreinfo := if vi.vmcoreinfo.size ≠ 0 then vi.vmcoreinfo else ⟨0, 0⟩
  cpuNotes := vi.cpuNotes

section Vmcore

variable {ht : HostTree} (normal : Normal ht.ram.r)

include normal in
theorem fileRead_vmcore (next : Name) (rest : List Name) :
    fileRead (emitted ht) ("vmcore".toList :: next :: rest) =
      if vmcoreInfoPresent ht.vmcore then fileRead (emitVmcore ht.vmcore).2 (next :: rest)
      else .error (-ENOENT) := by
  split
  · rename_i present
    refine fileRead_child (lookup_of_mem (emitted_distinct normal) ?_)
    refine List.mem_append_right _ ?_
    rw [if_pos present]
    exact List.mem_singleton.mpr rfl
  · rename_i absent
    refine fileRead_absent (lookup_eq_none ?_)
    rw [emitted_names, List.mem_append, not_or]
    refine ⟨?_, by rw [otherNames, if_neg absent]; split <;> simp⟩
    intro member
    obtain ⟨r, _, same⟩ := List.mem_map.mp member
    exact memoryNodeName_ne (by decide) _ same

include normal in
theorem readOptional_vmcore {next : Name} {rest : List Name} {there : Prop} [Decidable there]
    {bytes : List UInt8} (needs : there → vmcoreInfoPresent ht.vmcore = true)
    (inside : fileRead (emitVmcore ht.vmcore).2 (next :: rest) =
      if there then .ok bytes else .error (-ENOENT)) :
    readOptional (emitted ht) ("vmcore".toList :: next :: rest) =
      .ok (if there then some bytes else none) := by
  rw [readOptional, fileRead_vmcore normal, inside]
  by_cases part : there
  · rw [if_pos (needs part), if_pos part, if_pos part]
  · rw [if_neg part, if_neg part, ite_self]
    rfl

end Vmcore

theorem emitVmcore_pageOffset (vi : VmcoreInfo) :
    fileRead (emitVmcore vi).2 ["page-offset".toList] =
      if vi.hasPageOffset then .ok (cpuToFdt64 vi.pageOffset) else .error (-ENOENT) := by
  delta emitVmcore
  by_cases has : vi.hasPageOffset = true
  · rw [if_pos has, if_pos has]
    rfl
  · rw [if_neg has, if_neg has]
    rfl

theorem emitVmcore_vmcoreinfo (vi : VmcoreInfo) :
    fileRead (emitVmcore vi).2 ["vmcoreinfo".toList, "reg".toList] =
      if vi.vmcoreinfo.size ≠ 0 then
        .ok (cpuToFdt64 vi.vmcoreinfo.base ++ cpuToFdt64 vi.vmcoreinfo.size)
      else .error (-ENOENT) := by
  delta emitVmcore
  by_cases sized : vi.vmcoreinfo.size ≠ 0
  · rw [if_pos sized, if_pos sized]
    rfl
  · rw [if_neg sized, if_neg sized]
    by_cases notes : vi.cpuNotes ≠ []
    · rw [if_pos notes]
      rfl
    · rw [if_neg notes]
      rfl

theorem emitVmcore_cpuNotes (vi : VmcoreInfo) :
    fileRead (emitVmcore vi).2 ["cpu-notes".toList, "reg".toList] =
      if vi.cpuNotes ≠ [] then .ok (fdtutilPropRegs vi.cpuNotes).2 else .error (-ENOENT) := by
  delta emitVmcore
  by_cases notes : vi.cpuNotes ≠ []
  · rw [if_pos notes, if_pos notes]
    by_cases sized : vi.vmcoreinfo.size ≠ 0
    · rw [if_pos sized]
      rfl
    · rw [if_neg sized]
      rfl
  · rw [if_neg notes, if_neg notes]
    by_cases sized : vi.vmcoreinfo.size ≠ 0
    · rw [if_pos sized]
      rfl
    · rw [if_neg sized]
      rfl

theorem readVmcore_emitted {ht : HostTree} (normal : Normal ht.ram.r) :
    readVmcore (emitted ht) = .ok ht.vmcore.trimmed := by
  have page : readPageOffset (emitted ht) VmcoreInfo.init = .ok { VmcoreInfo.init with
      hasPageOffset := ht.vmcore.hasPageOffset
      pageOffset := if ht.vmcore.hasPageOffset then ht.vmcore.pageOffset else 0 } := by
    rw [readPageOffset, readOptional_vmcore normal (by simp_all [vmcoreInfoPresent])
      (emitVmcore_pageOffset ht.vmcore)]
    cases ht.vmcore.hasPageOffset with
    | true => simp [bind, Except.bind, fdt64ToCpu_cpuToFdt64]
    | false => rfl
  have info (vi : VmcoreInfo) : readVmcoreinfo (emitted ht) vi = .ok { vi with
      vmcoreinfo := if ht.vmcore.vmcoreinfo.size ≠ 0 then ht.vmcore.vmcoreinfo else vi.vmcoreinfo } := by
    rw [readVmcoreinfo, readOptional_vmcore normal (by simp_all [vmcoreInfoPresent])
      (emitVmcore_vmcoreinfo ht.vmcore)]
    by_cases sized : ht.vmcore.vmcoreinfo.size ≠ 0
    · simp only [if_pos sized, bind, Except.bind, List.length_append, length_cpuToFdt64, reg_base,
        reg_size]
      rfl
    · simp only [if_neg sized, bind, Except.bind]
  have notes (vi : VmcoreInfo) (none : vi.cpuNotes = []) :
      readCpuNotes (emitted ht) vi = .ok { vi with cpuNotes := ht.vmcore.cpuNotes } := by
    rw [readCpuNotes, readOptional_vmcore normal (by simp_all [vmcoreInfoPresent])
      (emitVmcore_cpuNotes ht.vmcore)]
    by_cases some : ht.vmcore.cpuNotes ≠ []
    · simp only [if_pos some, bind, Except.bind, fdtutilCellsToRangelist_prop]
      rfl
    · simp only [if_neg some, bind, Except.bind]
      rw [not_not.mp some, ← none]
  rw [readVmcore, page]
  simp only [bind, Except.bind, info]
  rw [notes _ rfl]
  rfl

theorem VmcoreInfo.trimmed_eq_iff (vi : VmcoreInfo) :
    vi.trimmed = vi ↔ (vi.hasPageOffset = false → vi.pageOffset = 0) ∧
      (vi.vmcoreinfo.size = 0 → vi.vmcoreinfo.base = 0) := by
  obtain ⟨has, offset, ⟨base, size⟩, notes⟩ := vi
  cases has with
  | true =>
      by_cases sized : size = 0 <;> simp [trimmed, sized, eq_comm]
  | false =>
      by_cases sized : size = 0 <;> simp [trimmed, sized, eq_comm]

/-- What the successor reads is what the predecessor emitted, but for the IOMMU bases. -/
theorem hostTree_roundTrip (ht : HostTree) (cpus : ht.cpus ≠ []) (ram : ht.ram.r ≠ [])
    (normal : Normal ht.ram.r) (valid : ∀ d ∈ ht.devices, PciId d.id)
    (ascending : ht.devices.Pairwise fun first second => first.id < second.id) :
    ∃ node read, hostTreeEmit ht = .ok node ∧ hostTreeRead node = .ok read ∧
      read.cpus = ht.cpus ∧ read.ram.r = ht.ram.r ∧
      read.devices = ht.devices.map (fun d => { d with iommu := 0 }) ∧
      read.vmcore = ht.vmcore.trimmed ∧
      ((ht.vmcore.hasPageOffset = false → ht.vmcore.pageOffset = 0) →
        (ht.vmcore.vmcoreinfo.size = 0 → ht.vmcore.vmcoreinfo.base = 0) →
        read.vmcore = ht.vmcore) := by
  obtain ⟨readRam, ramRead, sameRam⟩ := readRam_emitted normal
  refine ⟨emitted ht, ⟨ht.cpus, readRam, _, ht.vmcore.trimmed⟩, hostTreeEmit_emits cpus ram, ?_, rfl,
    sameRam, rfl, rfl, ?_⟩
  · have cpusRead : fileRead (emitted ht) ["cpus".toList] = .ok (ht.cpus.flatMap cpuToFdt64) := rfl
    simp only [hostTreeRead, cpusRead, fdtutilCellsToCpulist_prop, ramRead,
      readDevices_emitted normal valid ascending, readVmcore_emitted normal, bind, Except.bind]
    rfl
  · intro noOffset noInfo
    exact ht.vmcore.trimmed_eq_iff.mpr ⟨noOffset, noInfo⟩

/-- A machine with two ranges that the directory lists in the other order, and two functions. -/
def sampleTree : HostTree where
  cpus := [0, 2, 1]
  ram := ⟨[⟨0x9000, 0x1000⟩, ⟨0x10000, 0x2000⟩], 8⟩
  devices := [⟨"0000:00:1f.2".toList, 0x8086, 0x2922, 0x10601, 0xfed90000⟩,
    ⟨"0000:01:00.0".toList, 0x1af4, 0x1041, 0x20000, 0⟩]
  vmcore := ⟨false, 0, ⟨0x1000, 0x1000⟩, [⟨0x2000, 0⟩, ⟨0x3000, 0x100⟩]⟩

theorem sampleTree_roundTrip :
    ∃ node read, hostTreeEmit sampleTree = .ok node ∧ hostTreeRead node = .ok read ∧
      read.cpus = [0, 2, 1] ∧ read.ram.r = sampleTree.ram.r ∧ read.vmcore = sampleTree.vmcore := by
  have normal : Normal sampleTree.ram.r := ⟨by decide, by decide, by decide⟩
  have valid : ∀ d ∈ sampleTree.devices, PciId d.id := by
    intro d member
    simp only [sampleTree, List.mem_cons, List.not_mem_nil, or_false] at member
    rcases member with rfl | rfl
    · exact ⟨'0', '0', '0', '0', '0', '0', '1', 'f', '2', rfl, by simp [isHexDigit]⟩
    · exact ⟨'0', '0', '0', '0', '0', '1', '0', '0', '0', rfl, by simp [isHexDigit]⟩
  obtain ⟨node, read, emits, reads, cpus, ram, _, _, vmcore⟩ :=
    hostTree_roundTrip sampleTree (by decide) (by decide) normal valid (by decide)
  exact ⟨node, read, emits, reads, cpus, ram, vmcore (fun _ => rfl) (by decide)⟩

end Kmorph
