import Kmorph.Fallible
import Kmorph.Interfaces
import Kmorph.OverlayCore
import Kmorph.Pool

/-!
How often the trees `kmorph arm` writes name a PCI function. The list of devices
is passed on as it is and compared with the pool as text, so a function named
twice, or spelled otherwise than the pool spells it, comes up twice.
-/

namespace Kmorph

open Fallible

section Address

variable {c : Char} {id other : DeviceId} {f : PciFunction}

def pciAddress (id : DeviceId) : PciFunction where
  domain := hexadecimal (id.take 4)
  bus := hexadecimal ((id.drop 5).take 2)
  device := hexadecimal ((id.drop 8).take 2)
  function := hexadecimal (id.drop 11)

def IsLower (id : DeviceId) : Prop := ∀ c ∈ id, c.toLower = c

instance (id : DeviceId) : Decidable (IsLower id) :=
  decidable_of_iff (id.all (fun c => c.toLower = c) = true) (by simp [IsLower])

theorem hexDigit_facts {n : ℕ} (digit : n < 16) :
    isXdigit (hexDigit n) = true ∧ hexDigitValue (hexDigit n) = n ∧ (hexDigit n).toLower = hexDigit n := by
  have all : ∀ n : Fin 16, isXdigit (hexDigit n) = true ∧ hexDigitValue (hexDigit n) = n ∧
      (hexDigit n).toLower = hexDigit n := by decide
  exact all ⟨n, digit⟩

theorem isXdigit_facts (digit : isXdigit c = true) :
    hexDigitValue c < 16 ∧ c.toLower = hexDigit (hexDigitValue c) := by
  have all : ∀ n : Fin 128, isXdigit (Char.ofNat n) = true →
      hexDigitValue (Char.ofNat n) < 16 ∧ (Char.ofNat n).toLower = hexDigit (hexDigitValue (Char.ofNat n)) := by
    decide
  have small : c.toNat < 128 := by
    rw [isXdigit_iff] at digit
    omega
  have found := all ⟨c.toNat, small⟩
  rw [Char.ofNat_toNat] at found
  exact found digit

theorem cons_of_length {α : Type} {l : List α} {n : ℕ} (length : l.length = n + 1) :
    ∃ a rest, l = a :: rest ∧ rest.length = n := by
  obtain ⟨a, rest, rfl⟩ := List.exists_cons_of_length_eq_add_one length
  exact ⟨a, rest, rfl, Nat.succ.inj length⟩

/-- The digits of an address between its separators. -/
theorem isPciId_digits (isId : devnameIsPciId id = true) :
    ∃ d₁ d₂ d₃ d₄ b₁ b₂ s₁ s₂ f, id = [d₁, d₂, d₃, d₄, ':', b₁, b₂, ':', s₁, s₂, '.', f] ∧
      ∀ c ∈ [d₁, d₂, d₃, d₄, b₁, b₂, s₁, s₂, f], isXdigit c = true := by
  simp only [devnameIsPciId, Bool.and_eq_true, decide_eq_true_eq] at isId
  obtain ⟨length, pattern⟩ := isId
  obtain ⟨d₁, id, rfl, left11⟩ := cons_of_length length
  obtain ⟨d₂, id, rfl, left10⟩ := cons_of_length left11
  obtain ⟨d₃, id, rfl, left9⟩ := cons_of_length left10
  obtain ⟨d₄, id, rfl, left8⟩ := cons_of_length left9
  obtain ⟨c₁, id, rfl, left7⟩ := cons_of_length left8
  obtain ⟨b₁, id, rfl, left6⟩ := cons_of_length left7
  obtain ⟨b₂, id, rfl, left5⟩ := cons_of_length left6
  obtain ⟨c₂, id, rfl, left4⟩ := cons_of_length left5
  obtain ⟨s₁, id, rfl, left3⟩ := cons_of_length left4
  obtain ⟨s₂, id, rfl, left2⟩ := cons_of_length left3
  obtain ⟨p, id, rfl, left1⟩ := cons_of_length left2
  obtain ⟨f, id, rfl, left0⟩ := cons_of_length left1
  obtain rfl := List.length_eq_zero_iff.mp left0
  simp only [List.zip, String.reduceToList, List.zipWith_cons_cons, List.all_cons] at pattern
  simp at pattern
  obtain ⟨d₁', d₂', d₃', d₄', rfl, b₁', b₂', rfl, s₁', s₂', rfl, f'⟩ := pattern
  refine ⟨d₁, d₂, d₃, d₄, b₁, b₂, s₁, s₂, f, rfl, ?_⟩
  simp [d₁', d₂', d₃', d₄', b₁', b₂', s₁', s₂', f']

theorem hex_digit {n : ℕ} (digit : n < 16) : hex n = [hexDigit n] := by
  by_cases zero : n = 0
  · subst zero
    rfl
  · rw [hex, if_neg zero, Nat.digits_of_lt 16 n zero digit]
    rfl

theorem hex_more {n : ℕ} (more : 16 ≤ n) : hex n = hex (n / 16) ++ [hexDigit (n % 16)] := by
  have rest : n / 16 ≠ 0 := by omega
  rw [hex, if_neg (by omega), Nat.digits_def' (by decide) (by omega), hex, if_neg rest, List.reverse_cons,
    List.map_append]
  rfl

theorem hexPadded_one (n : ℕ) : hexPadded 1 n = hex n := by
  have length := List.length_pos_of_ne_nil (hex_ne_nil n)
  rw [hexPadded, Nat.sub_eq_zero_of_le length]
  rfl

theorem hexPadded_succ (width n : ℕ) :
    hexPadded (width + 2) n = hexPadded (width + 1) (n / 16) ++ [hexDigit (n % 16)] := by
  by_cases digit : n < 16
  · rw [hexPadded, hexPadded, hex_digit digit, Nat.div_eq_of_lt digit, Nat.mod_eq_of_lt digit,
      hex_digit (by decide : 0 < 16)]
    show List.replicate (width + 1) '0' ++ [hexDigit n] = List.replicate width '0' ++ ['0'] ++ [hexDigit n]
    rw [← List.replicate_succ']
  · rw [hexPadded, hexPadded, hex_more (Nat.le_of_not_lt digit), List.length_append, List.append_assoc,
      List.length_singleton, Nat.add_sub_add_right (width + 1) 1]

theorem hexPadded_two (n : ℕ) : hexPadded 2 n = hex (n / 16) ++ [hexDigit (n % 16)] := by
  rw [hexPadded_succ, hexPadded_one]

theorem hexPadded_four (n : ℕ) :
    hexPadded 4 n = hex (n / 4096) ++ [hexDigit (n / 256 % 16), hexDigit (n / 16 % 16), hexDigit (n % 16)] := by
  rw [hexPadded_succ, hexPadded_succ, hexPadded_two]
  simp only [Nat.div_div_eq_div_mul, List.append_assoc]
  rfl

structure PciFunction.InReg (f : PciFunction) : Prop where
  bus : f.bus < 256
  device : f.device < 32
  function : f.function < 8

theorem regFunction_inReg (domain hi : UInt32) : (regFunction domain hi).InReg := by
  refine ⟨?_, ?_, ?_⟩
  · exact Nat.lt_of_le_of_lt Nat.and_le_right (by decide)
  · exact Nat.lt_of_le_of_lt Nat.and_le_right (by decide)
  · exact Nat.lt_of_le_of_lt Nat.and_le_right (by decide)

theorem formatFunction_eq (inReg : f.InReg) :
    formatFunction f = (hex (f.domain / 4096) ++ [hexDigit (f.domain / 256 % 16), hexDigit (f.domain / 16 % 16),
      hexDigit (f.domain % 16), ':', hexDigit (f.bus / 16), hexDigit (f.bus % 16), ':', hexDigit (f.device / 16),
      hexDigit (f.device % 16), '.', hexDigit f.function]).take 15 := by
  obtain ⟨bus, device, function⟩ := inReg
  rw [formatFunction, hexPadded_four, hexPadded_two, hexPadded_two, hex_digit (by omega : f.bus / 16 < 16),
    hex_digit (by omega : f.device / 16 < 16), hex_digit (by omega : f.function < 16)]
  simp only [List.append_assoc, List.cons_append, List.nil_append]

theorem formatFunction_long (inReg : f.InReg) (large : 65536 ≤ f.domain) : 12 < (formatFunction f).length := by
  have digits : 2 ≤ (hex (f.domain / 4096)).length := by
    have more := List.length_pos_of_ne_nil (hex_ne_nil (f.domain / 4096 / 16))
    rw [hex_more (by omega), List.length_append, List.length_singleton]
    omega
  rw [formatFunction_eq inReg, List.length_take, List.length_append]
  simp only [List.length_cons, List.length_nil]
  omega

theorem pciAddress_digits (d₁ d₂ d₃ d₄ b₁ b₂ s₁ s₂ f : Char) :
    pciAddress [d₁, d₂, d₃, d₄, ':', b₁, b₂, ':', s₁, s₂, '.', f] =
      ⟨((hexDigitValue d₁ * 16 + hexDigitValue d₂) * 16 + hexDigitValue d₃) * 16 + hexDigitValue d₄,
        hexDigitValue b₁ * 16 + hexDigitValue b₂, hexDigitValue s₁ * 16 + hexDigitValue s₂, hexDigitValue f⟩ := by
  simp [pciAddress, hexadecimal]

theorem hexDigit_lower (digit : isXdigit c = true) (lower : c.toLower = c) : hexDigit (hexDigitValue c) = c := by
  rw [← (isXdigit_facts digit).2, lower]

theorem formatFunction_address (inReg : f.InReg) (small : f.domain < 65536) :
    pciAddress (formatFunction f) = f ∧ IsLower (formatFunction f) := by
  obtain ⟨bus, device, function⟩ := inReg
  have value {n : ℕ} (digit : n < 16) : hexDigitValue (hexDigit n) = n := (hexDigit_facts digit).2.1
  have lower {n : ℕ} (digit : n < 16) : (hexDigit n).toLower = hexDigit n := (hexDigit_facts digit).2.2
  rw [formatFunction_eq ⟨bus, device, function⟩, hex_digit (by omega : f.domain / 4096 < 16)]
  constructor
  · show pciAddress [_, _, _, _, ':', _, _, ':', _, _, '.', _] = f
    rw [pciAddress_digits, value (by omega), value (by omega), value (by omega), value (by omega), value (by omega),
      value (by omega), value (by omega), value (by omega), value (by omega)]
    show PciFunction.mk _ _ _ _ = ⟨f.domain, f.bus, f.device, f.function⟩
    rw [PciFunction.mk.injEq]
    omega
  · simp only [IsLower, List.take_succ_cons, List.cons_append, List.nil_append, List.forall_mem_cons]
    refine ⟨lower (by omega), lower (by omega), lower (by omega), lower (by omega), rfl, lower (by omega),
      lower (by omega), rfl, lower (by omega), lower (by omega), rfl, lower (by omega), ?_⟩
    simp

/-- The pool spells a function of an address in lower case, and no other function so. -/
theorem formatFunction_eq_iff (inReg : f.InReg) (isId : devnameIsPciId id = true) :
    formatFunction f = id ↔ f = pciAddress id ∧ IsLower id := by
  obtain ⟨d₁, d₂, d₃, d₄, b₁, b₂, s₁, s₂, c, rfl, digits⟩ := isPciId_digits isId
  constructor
  · intro same
    -- A larger domain has more than four digits, and no address does.
    have small : f.domain < 65536 := by
      by_contra large
      have long := formatFunction_long inReg (Nat.le_of_not_lt large)
      rw [same] at long
      simp at long
    obtain ⟨address, lower⟩ := formatFunction_address inReg small
    rw [← same]
    exact ⟨address.symm, lower⟩
  · rintro ⟨rfl, lower⟩
    simp only [List.forall_mem_cons] at digits
    obtain ⟨d₁', d₂', d₃', d₄', b₁', b₂', s₁', s₂', c', -⟩ := digits
    simp only [IsLower, List.forall_mem_cons] at lower
    obtain ⟨dl₁, dl₂, dl₃, dl₄, -, bl₁, bl₂, -, sl₁, sl₂, -, cl, -⟩ := lower
    have digit {n : ℕ} {c : Char} (isDigit : isXdigit c = true) (lower : c.toLower = c)
        (value : n = hexDigitValue c) : hexDigit n = c := by rw [value, hexDigit_lower isDigit lower]
    have v₁ := (isXdigit_facts d₁').1
    have v₂ := (isXdigit_facts d₂').1
    have v₃ := (isXdigit_facts d₃').1
    have v₄ := (isXdigit_facts d₄').1
    have v₅ := (isXdigit_facts b₂').1
    have v₆ := (isXdigit_facts s₂').1
    rw [formatFunction_eq inReg]
    simp only [pciAddress_digits]
    rw [hex_digit (by omega)]
    simp only [List.take_succ_cons, List.cons_append, List.nil_append, List.take_nil, List.cons.injEq, and_true,
      true_and]
    exact ⟨digit d₁' dl₁ (by omega), digit d₂' dl₂ (by omega), digit d₃' dl₃ (by omega), digit d₄' dl₄ (by omega),
      digit b₁' bl₁ (by omega), digit b₂' bl₂ (by omega), digit s₁' sl₁ (by omega), digit s₂' sl₂ (by omega),
      hexDigit_lower c' cl⟩

end Address

section Held

variable {beyond : Node → UInt32} {tree : Node} {pool : PoolView} {domain : UInt32} {ids : List DeviceId}

def heldFunction (domain : UInt32) (node : Node) : Option PciFunction := do
  let _ ← fdtGetprop node "vendor-id"
  let reg ← fdtGetprop node "reg"
  return regFunction domain (fdt32ToCpu (reg.take 4))

def bridgeFunctions (beyond : UInt32) (bridge : Node) : List PciFunction :=
  bridge.children.filterMap fun child => heldFunction (pciDomain beyond bridge) child.2

def poolFunctions (beyond : Node → UInt32) (tree : Node) : List PciFunction :=
  let bridges := tree.children.filter fun child => fdtNodeCompatible child.2 PCI_HOST_BRIDGE_COMPATIBLE
  bridges.flatMap fun bridge => bridgeFunctions (beyond bridge.2) bridge.2

theorem poolFunctions_inReg : ∀ f ∈ poolFunctions beyond tree, f.InReg := by
  intro f member
  obtain ⟨bridge, -, inBridge⟩ := List.mem_flatMap.mp member
  obtain ⟨child, -, held⟩ := List.mem_filterMap.mp inBridge
  simp only [heldFunction, Option.bind_eq_bind, Option.bind_eq_some_iff, Option.pure_def, Option.some.injEq] at held
  obtain ⟨vendor, -, reg, -, rfl⟩ := held
  exact regFunction_inReg _ _

theorem heldFunction_of_id {node : Node} {id : DeviceId} (vendor : (fdtGetprop node "vendor-id").isSome)
    (read : pciFunctionId domain node = .ok id) : (heldFunction domain node).map formatFunction = some id := by
  obtain ⟨bytes, vendor⟩ := Option.isSome_iff_exists.mp vendor
  rw [heldFunction, vendor]
  simp only [pciFunctionId] at read
  cases reg : fdtGetprop node "reg" with
  | none => simp [reg] at read
  | some cells =>
      simp only [reg] at read
      split at read
      · simp at read
      · cases read
        rfl

theorem collectPciFunctions_eq {beyond : UInt32} {bridge : Node}
    (read : collectPciFunctions beyond bridge = .ok ids) :
    (bridgeFunctions beyond bridge).map formatFunction = ids := by
  have each := mapM_filterMap (g := fun child : Name × Node =>
      (heldFunction (pciDomain beyond bridge) child.2).map formatFunction) (h := id)
    (fun child member id found => heldFunction_of_id (List.mem_filter.mp member).2 found) read
  rw [List.map_id, List.filterMap_filter] at each
  rw [← each, bridgeFunctions, List.map_filterMap]
  apply List.filterMap_congr
  intro child _
  cases vendor : fdtGetprop child.2 "vendor-id" with
  | none => simp [heldFunction, vendor]
  | some bytes => simp

theorem collectPoolPci_eq (read : collectPoolPci beyond tree = .ok ids) :
    (poolFunctions beyond tree).map formatFunction = ids := by
  obtain ⟨lists, collected, flat⟩ := bind_eq_ok.mp read
  have each := mapM_filterMap (g := fun bridge : Name × Node =>
      some ((bridgeFunctions (beyond bridge.2) bridge.2).map formatFunction)) (h := id)
    (fun bridge _ ids found => congrArg some (collectPciFunctions_eq found)) collected
  rw [List.map_id, List.filterMap_eq_map'] at each
  rw [← Except.ok.inj flat, ← each, poolFunctions, List.map_flatMap, List.flatMap_def]

theorem dtReadPool_devices (read : dtReadPool beyond tree = .ok pool) :
    (poolFunctions beyond tree).map formatFunction = pool.devices := by
  simp only [dtReadPool] at read
  split at read
  · simp at read
  · obtain ⟨freeCpus, -, read⟩ := bind_eq_ok.mp read
    split at read
    · simp at read
    · obtain ⟨ids, collected, read⟩ := bind_eq_ok.mp read
      rw [collectPoolPci_eq collected, ← Except.ok.inj read]

end Held

section Written

variable {ids : List DeviceId} {id : DeviceId}

def pciIds (children : List (Name × Node)) : List DeviceId :=
  children.filterMap fun child => (fdtGetprop child.2 "pci-id").map propString

def fragmentDevices (fragment : Node) : List DeviceId :=
  fragment.children.flatMap fun content => content.2.children.flatMap fun operation =>
    if operation.1 = "device-add".toList then pciIds operation.2.children else []

def addedDevices (overlay : Node) : List DeviceId :=
  overlay.children.flatMap fun fragment => fragmentDevices fragment.2

def baselineDevices (tree : Node) : List DeviceId :=
  (resourcesOf tree).flatMap fun child => if child.1 = "devices".toList then pciIds child.2.children else []

theorem propString_stringBytes (isId : devnameIsPciId id = true) : propString (stringBytes id) = id := by
  apply cString_stringBytes
  obtain ⟨d₁, d₂, d₃, d₄, b₁, b₂, s₁, s₂, f, rfl, digits⟩ := isPciId_digits isId
  have plain {c : Char} (digit : isXdigit c = true) : 0 < c.toNat ∧ c.toNat < 256 := by
    rw [isXdigit_iff] at digit
    omega
  simp only [List.forall_mem_cons] at digits ⊢
  obtain ⟨d₁', d₂', d₃', d₄', b₁', b₂', s₁', s₂', f', -⟩ := digits
  exact ⟨plain d₁', plain d₂', plain d₃', plain d₄', by decide, plain b₁', plain b₂', by decide, plain s₁', plain s₂',
    by decide, plain f', by simp⟩

theorem pciIds_map {α : Type} {node : α → Name × Node} {name : α → DeviceId} {l : List α}
    (read : ∀ a ∈ l, fdtGetprop (node a).2 "pci-id" = some (stringBytes (name a)))
    (areIds : ∀ a ∈ l, devnameIsPciId (name a) = true) : pciIds (l.map node) = l.map name := by
  rw [pciIds, List.filterMap_map, ← List.filterMap_eq_map]
  apply List.filterMap_congr
  intro a member
  simp only [Function.comp_apply, read a member, Option.map_some, propString_stringBytes (areIds a member)]

theorem fragmentDevices_fragment (index : ℕ) (target : List Char) (name : Name) (operation : Node) :
    fragmentDevices (overlayFragment index target (name, operation)).2 =
      if name = "device-add".toList then pciIds operation.children else [] := by
  show List.flatMap (fun content : Name × Node => content.2.children.flatMap _)
    [(_, Node.mk [] [(name, operation)])] = _
  rw [List.flatMap_singleton]
  show List.flatMap _ [(name, operation)] = _
  rw [List.flatMap_singleton]

theorem fragmentDevices_add (index : ℕ) (target : List Char) (areIds : ∀ id ∈ ids, devnameIsPciId id = true) :
    fragmentDevices (emitDeviceAdd index target ids).2 = ids := by
  rw [emitDeviceAdd, fragmentDevices_fragment, if_pos rfl]
  refine (pciIds_map ?_ ?_).trans (List.zipIdx_map_fst 0 ids)
  · exact fun entry _ => List.lookup_cons_self
  · exact fun entry member => areIds entry.1 (List.fst_mem_of_mem_zipIdx member)

theorem addedDevices_pool (areIds : ∀ id ∈ ids, devnameIsPciId id = true) :
    addedDevices (buildPoolDeviceAdd ids) = ids := by
  rw [addedDevices, buildPoolDeviceAdd, Node.children, List.flatMap_cons, List.flatMap_nil, List.append_nil,
    fragmentDevices_add 0 _ areIds]

theorem addedDevices_instance {a : InstanceArgs} {overlay : Node}
    (areIds : ∀ id ∈ a.devices, devnameIsPciId id = true)
    (built : buildInstanceCreate a = .ok overlay) : addedDevices overlay = a.devices := by
  obtain ⟨chosen, -, emitted⟩ := bind_eq_ok.mp built
  rw [← Except.ok.inj emitted, addedDevices, Node.children, List.flatMap_cons, fragmentDevices_fragment,
    if_neg (show "instance-create".toList ≠ "device-add".toList by decide), List.nil_append]
  by_cases empty : a.devices = []
  · simp [empty]
  · rw [if_pos empty, List.flatMap_cons, List.flatMap_nil, List.append_nil, fragmentDevices_add 1 _ areIds]

theorem pciIds_platform (names : List Name) : pciIds (names.map emitPlatformDeviceNode) = [] := by
  have type : ("pci-id".toList == "device-type".toList) = false := by decide
  have label : ("pci-id".toList == "device-name".toList) = false := by decide
  have absent (first second : List UInt8) :
      List.lookup "pci-id".toList [("device-type".toList, first), ("device-name".toList, second)] = none := by
    rw [List.lookup_cons, type, List.lookup_cons, label]
    rfl
  rw [pciIds, List.filterMap_map]
  apply List.filterMap_eq_nil_iff.mpr
  intro name _
  exact congrArg (Option.map propString) (absent (stringBytes "platform".toList) (stringBytes name))

theorem pciIds_baseline {devices : List PciIds} (areIds : ∀ d ∈ devices, devnameIsPciId d.id = true) :
    pciIds (devices.map emitBaselineDeviceNode) = devices.map PciIds.id := by
  have type : ("pci-id".toList == "device-type".toList) = false := by decide
  refine pciIds_map (fun d _ => ?_) areIds
  show List.lookup _ ((_, _) :: (_, _) :: _) = _
  rw [List.lookup_cons, type]
  exact List.lookup_cons_self

theorem pciIds_append (first second : List (Name × Node)) :
    pciIds (first ++ second) = pciIds first ++ pciIds second :=
  List.filterMap_append

theorem memoryNodes_noDevices (a : PoolArgs) : (a.claim.toList.map claimedMemory ++
    if poolGrow a ≠ 0 then [grownMemory (if a.claim.isSome then "memory@1" else "memory@0") (poolGrow a)]
    else []).flatMap (fun child => if child.1 = "devices".toList then pciIds child.2.children else []) = [] := by
  have memory₀ : "memory@0".toList ≠ "devices".toList := by decide
  have memory₁ : "memory@1".toList ≠ "devices".toList := by decide
  apply List.flatMap_eq_nil_iff.mpr
  intro child member
  apply if_neg
  rcases List.mem_append.mp member with claimed | grown
  · obtain ⟨claim, -, rfl⟩ := List.mem_map.mp claimed
    exact memory₀
  · split at grown
    · rw [List.mem_singleton.mp grown, grownMemory]
      split
      · exact memory₁
      · exact memory₀
    · exact absurd grown List.not_mem_nil

theorem baselineDevices_built {a : PoolArgs} (areIds : ∀ d ∈ a.devices, devnameIsPciId d.id = true) :
    baselineDevices (buildPoolBaseline a) = a.devices.map PciIds.id := by
  have listed : pciIds (a.devices.map emitBaselineDeviceNode ++ a.platformDevices.map emitPlatformDeviceNode) =
      a.devices.map PciIds.id := by
    rw [pciIds_append, pciIds_baseline areIds, pciIds_platform, List.append_nil]
  rw [baselineDevices, resourcesOf_baseline, List.flatMap_append, memoryNodes_noDevices, List.nil_append]
  by_cases listing : a.devices ≠ [] ∨ a.platformDevices ≠ []
  · rw [if_pos listing, List.flatMap_singleton]
    show (if "devices".toList = "devices".toList then _ else _) = _
    rw [if_pos rfl]
    exact listed
  · rw [if_neg listing, not_not.mp (not_or.mp listing).1]
    rfl

end Written

section Arm

variable {fs : Sysfs} {granted : ℕ → Bool} {devices resolved : List (List Char)} {beyond : Node → UInt32}
  {tree : Node} {pool : PoolView} {held : List PciFunction}

theorem resolveDevice_isPciId {name id : List Char} (resolves : resolveDevice fs name = .ok id) :
    devnameIsPciId id = true := by
  unfold resolveDevice at resolves
  split at resolves
  · rename_i isId
    rwa [← Except.ok.inj resolves]
  · exact devnameResolve_isPciId resolves

/-- The functions the config names, by address or by a name. -/
def configuredFunctions (fs : Sysfs) (devices : List (List Char)) : List PciFunction :=
  devices.filterMap fun device => (resolveDevice fs device).toOption.map pciAddress

theorem configuredFunctions_eq (resolves : resolveDevices fs granted devices = .ok resolved) :
    resolved.map pciAddress = configuredFunctions fs devices := by
  rw [resolveDevices_eq resolves, List.map_filterMap, configuredFunctions]

theorem resolved_isPciId (resolves : resolveDevices fs granted devices = .ok resolved) :
    ∀ id ∈ resolved, devnameIsPciId id = true := by
  intro id member
  obtain ⟨device, -, found⟩ := (mem_resolveDevices resolves id).mp member
  exact resolveDevice_isPciId found

theorem mem_pool {id : DeviceId} (read : dtReadPool beyond tree = .ok pool) (isId : devnameIsPciId id = true) :
    id ∈ pool.devices ↔ pciAddress id ∈ poolFunctions beyond tree ∧ IsLower id := by
  rw [← dtReadPool_devices read, List.mem_map]
  constructor
  · rintro ⟨f, member, same⟩
    obtain ⟨rfl, lower⟩ := (formatFunction_eq_iff (poolFunctions_inReg f member) isId).mp same
    exact ⟨member, lower⟩
  · rintro ⟨member, lower⟩
    exact ⟨_, member, (formatFunction_eq_iff (poolFunctions_inReg _ member) isId).mpr ⟨rfl, lower⟩⟩

theorem mem_missingDevices {id : DeviceId} :
    id ∈ missingDevices devices pool ↔ id ∈ devices ∧ id ∉ pool.devices := by
  rw [missingDevices, List.mem_filter, Bool.not_eq_true', ← Bool.not_eq_true, strlistContains_iff]

theorem armPoolAddDevices_writes {overlay : Node} {granted : Bool} {answer : OverlayAnswer}
    (written : overlay ∈ (armPoolAddDevices granted answer devices pool).2) :
    overlay = buildPoolDeviceAdd (missingDevices devices pool) := by
  simp only [armPoolAddDevices] at written
  split at written
  · exact absurd written List.not_mem_nil
  split at written
  · exact absurd written List.not_mem_nil
  · rename_i missing
    by_cases built : answer.built = 0
    · simp only [dtBuildPoolDeviceAdd, if_neg missing, built] at written
      exact List.mem_singleton.mp written
    · simp only [dtBuildPoolDeviceAdd, if_neg missing, if_pos built] at written
      exact absurd written List.not_mem_nil

theorem armPoolAddDevices_adds (missing : missingDevices devices pool ≠ []) :
    (armPoolAddDevices true ⟨0, 0⟩ devices pool).2 = [buildPoolDeviceAdd (missingDevices devices pool)] := by
  simp [armPoolAddDevices, dtBuildPoolDeviceAdd, missing]

theorem armPoolAddDevices_none {answer : OverlayAnswer}
    (nothing : armPoolAddDevices true answer devices pool = (0, [])) :
    missingDevices devices pool = [] := by
  by_contra missing
  by_cases built : answer.built = 0
  · simp [armPoolAddDevices, dtBuildPoolDeviceAdd, missing, built] at nothing
  · simp [armPoolAddDevices, dtBuildPoolDeviceAdd, missing, built] at nothing

/-- What the kernel asks of the trees that list the devices: the overlay for the pool names a function
once, none of the pool, and all it lacks; those for the instance and for a new pool name one once. -/
structure NamedOnce (configured held : List PciFunction) (devices : List DeviceId) (pool : PoolView) : Prop where
  added : ∀ granted answer, ∀ overlay ∈ (armPoolAddDevices granted answer devices pool).2,
    ((addedDevices overlay).map pciAddress).Nodup ∧ (∀ f ∈ (addedDevices overlay).map pciAddress, f ∉ held) ∧
      ∀ f ∈ configured, f ∈ (addedDevices overlay).map pciAddress ∨ f ∈ held
  enough : ∀ answer, armPoolAddDevices true answer devices pool = (0, []) → ∀ f ∈ configured, f ∈ held
  created : ∀ name cfg hostTree answer, cfg.devices = devices →
    ∀ overlay ∈ (createInstance name cfg hostTree answer).2, ((addedDevices overlay).map pciAddress).Nodup
  founded : ∀ cfg answers sysfs, cfg.devices = devices → answers.readIds = pciReadIds sysfs →
    ∀ tree ∈ (initPool cfg answers).baselines, ((baselineDevices tree).map pciAddress).Nodup

/-- No function is configured twice, and one the pool holds is spelled as the pool spells it. -/
structure SpelledOnce (fs : Sysfs) (devices : List (List Char)) (held : List PciFunction) : Prop where
  once : (configuredFunctions fs devices).Nodup
  spelled : ∀ device ∈ devices, ∀ id, resolveDevice fs device = .ok id → pciAddress id ∈ held → IsLower id

theorem created_devices {name : List Char} {cfg : PoolConfig} {hostTree : Except Int HostTree}
    {answer : OverlayAnswer} {overlay : Node} (areIds : ∀ id ∈ cfg.devices, devnameIsPciId id = true)
    (written : overlay ∈ (createInstance name cfg hostTree answer).2) : addedDevices overlay = cfg.devices := by
  simp only [createInstance] at written
  split at written
  · exact absurd written List.not_mem_nil
  · split at written
    · exact absurd written List.not_mem_nil
    · rename_i dtbo built
      obtain rfl := List.mem_singleton.mp written
      simp only [dtBuildInstanceCreate] at built
      split at built
      · simp at built
      split at built
      · simp at built
      · rename_i dtbo emitted
        split at built
        · simp at built
        · rw [← Except.ok.inj built]
          exact addedDevices_instance areIds emitted

theorem pciReadIds_id {sysfs : PciSysfs} {id : DeviceId} {d : PciIds} (isId : devnameIsPciId id = true)
    (read : pciReadIds sysfs id = .ok d) : d.id = id := by
  rw [pciReadIds] at read
  split at read
  · simp at read
  · obtain ⟨vendor, -, read⟩ := bind_eq_ok.mp read
    obtain ⟨device, -, read⟩ := bind_eq_ok.mp read
    obtain ⟨classCode, -, read⟩ := bind_eq_ok.mp read
    rw [← Except.ok.inj read]
    exact List.take_of_length_le (devnameIsPciId_isWord isId).short

theorem mem_writeBaseline {answer : BaselineAnswer} {args : PoolArgs}
    (written : tree ∈ (writeBaseline answer args).2) :
    tree = buildPoolBaseline args := by
  simp only [writeBaseline, dtBuildPoolBaseline] at written
  split at written
  · exact absurd written List.not_mem_nil
  · rename_i dtb built
    split at built
    · simp at built
    split at built
    · simp at built
    · rw [List.mem_singleton.mp written, Except.ok.inj built]

theorem mem_initPool {cfg : PoolConfig} {answers : PoolAnswers} (written : tree ∈ (initPool cfg answers).baselines) :
    ∃ args, tree = buildPoolBaseline args ∧ cfg.devices.mapM answers.readIds = .ok args.devices := by
  simp only [initPool] at written
  split at written
  · exact absurd written List.not_mem_nil
  rename_i list found
  split at written
  · exact ⟨_, mem_writeBaseline written, found⟩
  split at written
  · exact ⟨_, mem_writeBaseline written, found⟩
  · rcases List.mem_append.mp written with claimed | plain
    · exact ⟨_, mem_writeBaseline claimed, found⟩
    · exact ⟨_, mem_writeBaseline plain, found⟩

theorem founded_devices {cfg : PoolConfig} {answers : PoolAnswers} {sysfs : PciSysfs}
    (areIds : ∀ id ∈ cfg.devices, devnameIsPciId id = true) (reads : answers.readIds = pciReadIds sysfs)
    (written : tree ∈ (initPool cfg answers).baselines) : baselineDevices tree = cfg.devices := by
  obtain ⟨args, rfl, found⟩ := mem_initPool written
  rw [reads] at found
  have same := mapM_filterMap (g := some) (h := PciIds.id)
    (fun id member d read => congrArg some (pciReadIds_id (areIds id member) read).symm) found
  rw [List.filterMap_some] at same
  rw [baselineDevices_built, ← same]
  intro d member
  apply areIds
  rw [same]
  exact List.mem_map_of_mem member

theorem covered (resolves : resolveDevices fs granted devices = .ok resolved)
    (read : dtReadPool beyond tree = .ok pool) {f : PciFunction} (configured : f ∈ configuredFunctions fs devices) :
    f ∈ (missingDevices resolved pool).map pciAddress ∨ f ∈ poolFunctions beyond tree := by
  rw [← configuredFunctions_eq resolves] at configured
  obtain ⟨id, member, rfl⟩ := List.mem_map.mp configured
  by_cases inPool : id ∈ pool.devices
  · exact .inr ((mem_pool read (resolved_isPciId resolves id member)).mp inPool).1
  · exact .inl (List.mem_map_of_mem (mem_missingDevices.mpr ⟨member, inPool⟩))

theorem SpelledOnce.namedOnce (resolves : resolveDevices fs granted devices = .ok resolved)
    (read : dtReadPool beyond tree = .ok pool) (spelled : SpelledOnce fs devices (poolFunctions beyond tree)) :
    NamedOnce (configuredFunctions fs devices) (poolFunctions beyond tree) resolved pool := by
  have areIds := resolved_isPciId resolves
  have once : (resolved.map pciAddress).Nodup := by
    rw [configuredFunctions_eq resolves]
    exact spelled.once
  have missingIds : ∀ id ∈ missingDevices resolved pool, devnameIsPciId id = true :=
    fun id member => areIds id (mem_missingDevices.mp member).1
  refine ⟨?_, ?_, ?_, ?_⟩
  · intro granted answer overlay written
    rw [armPoolAddDevices_writes written, addedDevices_pool missingIds]
    refine ⟨once.sublist (List.filter_sublist.map _), ?_, fun f => covered resolves read⟩
    intro f member inPool
    obtain ⟨id, missing, rfl⟩ := List.mem_map.mp member
    obtain ⟨isResolved, absent⟩ := mem_missingDevices.mp missing
    obtain ⟨device, isDevice, found⟩ := (mem_resolveDevices resolves id).mp isResolved
    have lower := spelled.spelled device isDevice id found inPool
    exact absent ((mem_pool read (areIds id isResolved)).mpr ⟨inPool, lower⟩)
  · intro answer nothing f configured
    have cover := covered resolves read configured
    rw [armPoolAddDevices_none nothing] at cover
    simpa using cover
  · intro name cfg hostTree answer same overlay written
    subst same
    rwa [created_devices areIds written]
  · intro cfg answers sysfs same reads baseline written
    subst same
    rwa [founded_devices areIds reads written]

def smallHost : HostTree := ⟨[0], ⟨[⟨0, 0x1000⟩], 8⟩, [], VmcoreInfo.init⟩

theorem createInstance_writes (devices : List DeviceId) : ∃ overlay,
    (createInstance [] ⟨[0], 1, devices, false, by decide⟩ (.ok smallHost) ⟨0, 0⟩).2 = [overlay] := by
  simp [createInstance, dtBuildInstanceCreate, buildInstanceCreate, instanceChosen, hostTreeEmit, smallHost, bind,
    Except.bind, pure, Except.pure]

theorem NamedOnce.spelledOnce (resolves : resolveDevices fs granted devices = .ok resolved)
    (read : dtReadPool beyond tree = .ok pool)
    (named : NamedOnce (configuredFunctions fs devices) (poolFunctions beyond tree) resolved pool) :
    SpelledOnce fs devices (poolFunctions beyond tree) := by
  have areIds := resolved_isPciId resolves
  constructor
  · -- The instance gets the list as it is, so its overlay shows whether a function comes twice.
    obtain ⟨overlay, written⟩ := createInstance_writes resolved
    have member := List.mem_singleton.mpr (Eq.refl overlay)
    rw [← written] at member
    have once := named.created _ _ _ _ rfl overlay member
    rwa [created_devices areIds member, configuredFunctions_eq resolves] at once
  · intro device isDevice id found inPool
    by_contra upper
    have isResolved := (mem_resolveDevices resolves id).mpr ⟨device, isDevice, found⟩
    have absent : id ∉ pool.devices := fun listed => upper ((mem_pool read (areIds id isResolved)).mp listed).2
    have missing := mem_missingDevices.mpr ⟨isResolved, absent⟩
    have member := List.mem_singleton.mpr (Eq.refl (buildPoolDeviceAdd (missingDevices resolved pool)))
    rw [← armPoolAddDevices_adds (List.ne_nil_of_mem missing)] at member
    have apart := (named.added true ⟨0, 0⟩ _ member).2.1
    rw [addedDevices_pool fun id member => areIds id (mem_missingDevices.mp member).1] at apart
    exact apart _ (List.mem_map_of_mem missing) inPool

/-- The trees name each function once exactly if the config does and spells those of the pool as the
pool does. -/
theorem deviceLists_iff (resolves : resolveDevices fs granted devices = .ok resolved)
    (read : dtReadPool beyond tree = .ok pool) :
    NamedOnce (configuredFunctions fs devices) (poolFunctions beyond tree) resolved pool ↔
      SpelledOnce fs devices (poolFunctions beyond tree) :=
  ⟨NamedOnce.spelledOnce resolves read, SpelledOnce.namedOnce resolves read⟩

end Arm

/-- A root tree with a pool that holds the function `0000:0a:00.0`. -/
def pooledTree : Node :=
  .mk [] [
    ("resources".toList, .mk [] [("memory@0".toList, .mk [fdtutilPropReg 0 0x1000] [])]),
    ("pci@0".toList, .mk [("compatible".toList, stringBytes PCI_HOST_BRIDGE_COMPATIBLE.toList)]
      [("dev@0".toList, .mk [("vendor-id".toList, cpuToFdt32 0x8086), ("reg".toList, cpuToFdt32 0xa0000)] [])])]

def pooledView : PoolView := ⟨[], 0x1000, 0x1000, ["0000:0a:00.0".toList], []⟩

theorem dtReadPool_pooled : dtReadPool (fun _ => 0) pooledTree = .ok pooledView := by decide +kernel

theorem poolFunctions_pooled : poolFunctions (fun _ => 0) pooledTree = [⟨0, 0xa, 0, 0⟩] := by decide +kernel

theorem deviceLists_byName :
    NamedOnce [⟨0, 1, 0, 0⟩, ⟨0, 0xa, 0, 0⟩] [⟨0, 0xa, 0, 0⟩] ["0000:01:00.0".toList, "0000:0a:00.0".toList]
      pooledView := by
  have resolves : resolveDevices (twoPorts "0000:01:00.1".toList).fs (fun _ => true)
      ["eth0".toList, "0000:0a:00.0".toList] = .ok ["0000:01:00.0".toList, "0000:0a:00.0".toList] := by
    decide +kernel
  have configured : configuredFunctions (twoPorts "0000:01:00.1".toList).fs ["eth0".toList, "0000:0a:00.0".toList] =
      [⟨0, 1, 0, 0⟩, ⟨0, 0xa, 0, 0⟩] := by decide +kernel
  have named := (deviceLists_iff resolves dtReadPool_pooled).mpr ⟨?_, ?_⟩
  · rwa [configured, poolFunctions_pooled] at named
  · rw [configured]
    decide
  · intro device member id found _
    have lower : ∀ id ∈ ["0000:01:00.0".toList, "0000:0a:00.0".toList], IsLower id := by
      simp only [List.forall_mem_cons]
      exact ⟨by decide +kernel, by decide +kernel, by simp⟩
    exact lower id ((mem_resolveDevices resolves id).mpr ⟨device, member, found⟩)

/-- A function by its name and its address, and one of the pool in upper case: the overlay for the
pool has the first twice and the other once more, and the instance would get the first twice. -/
theorem deviceLists_namedTwice :
    resolveDevices (twoPorts "0000:01:00.1".toList).fs (fun _ => true)
        ["eth0".toList, "0000:01:00.0".toList, "0000:0A:00.0".toList] =
      .ok ["0000:01:00.0".toList, "0000:01:00.0".toList, "0000:0A:00.0".toList] ∧
    dtReadPool (fun _ => 0) pooledTree = .ok pooledView ∧
    poolFunctions (fun _ => 0) pooledTree = [⟨0, 0xa, 0, 0⟩] ∧
    ((armPoolAddDevices true ⟨0, 0⟩ ["0000:01:00.0".toList, "0000:01:00.0".toList, "0000:0A:00.0".toList]
        pooledView).2.map fun overlay => (addedDevices overlay).map pciAddress) =
      [[⟨0, 1, 0, 0⟩, ⟨0, 1, 0, 0⟩, ⟨0, 0xa, 0, 0⟩]] ∧
    ((createInstance "next".toList ⟨[1], 0x1000,
        ["0000:01:00.0".toList, "0000:01:00.0".toList, "0000:0A:00.0".toList], false, by decide⟩ (.ok smallHost)
        ⟨0, 0⟩).2.map fun overlay => (addedDevices overlay).map pciAddress) =
      [[⟨0, 1, 0, 0⟩, ⟨0, 1, 0, 0⟩, ⟨0, 0xa, 0, 0⟩]] := by
  decide +kernel

end Kmorph
