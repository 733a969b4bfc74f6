import Kmorph.ArmCore
import Kmorph.Collect
import Kmorph.Fallible

/-!
Which interfaces the network identity describes. `arm` skips the functions its
resolved devices name; `watch` and `upgrade` skip what the config says literally.
-/

namespace Kmorph

open Fallible

/-- The interface a line of the identity introduces. -/
def lineInterface (line : List Char) : Option (List Char) := do
  let (kind, rest) ← scanWord 7 line
  if kind ≠ "link".toList then none
  let (_, rest) ← scanWord 15 rest
  let (name, _) ← scanWord 15 rest
  return name

def textInterfaces (text : List Char) : List (List Char) :=
  (textLines text).filterMap lineInterface

/-- The PCI function an interface sits on: the nearest one above it. -/
def functionOf (fs : Sysfs) (name : List Char) : Option (List Char) :=
  (fs.realpath .net name).toOption.bind fun path => path.dropLast.reverse.find? devnameIsPciId

/-- The PCI interfaces with their functions; the other entries of a directory are itself and its
parent. -/
def pciInterfaces (fs : Sysfs) : List (List Char × List Char) :=
  fs.entries.filterMap fun name =>
    if name = ".".toList ∨ name = "..".toList then none else (functionOf fs name).map (name, ·)

/-- Two spellings of one address: the digits above nine have two cases. -/
def SameAddress (a b : List Char) : Prop := a.map Char.toLower = b.map Char.toLower

instance (a b : List Char) : Decidable (SameAddress a b) := inferInstanceAs (Decidable (_ = _))

/-- The config names the function, by its address or by a name that resolves to it. -/
def Named (fs : Sysfs) (devices : List (List Char)) (pci : List Char) : Prop :=
  ∃ device ∈ devices,
    if devnameIsPciId device then SameAddress device pci else devnameResolve fs device 16 = .ok pci

instance (fs : Sysfs) (devices : List (List Char)) (pci : List Char) :
    Decidable (Named fs devices pci) :=
  inferInstanceAs (Decidable (∃ device ∈ devices, _))

/-- What `read_link` needs beside the PCI function: the name is of an interface only, it is not
hidden, and its hardware address has six bytes. -/
structure Readable (fs : Sysfs) (name : List Char) : Prop where
  visible : name.head? ≠ some '.'
  unique : ∀ c ∈ [SysClass.block, .graphics, .usb], fs.access c name = false
  address : ((fs.file name .address).toOption.bind scanMac).isSome

instance (fs : Sysfs) (name : List Char) : Decidable (Readable fs name) :=
  decidable_of_iff
    (name.head? ≠ some '.' ∧ (∀ c ∈ [SysClass.block, .graphics, .usb], fs.access c name = false) ∧
      ((fs.file name .address).toOption.bind scanMac).isSome)
    ⟨fun ⟨visible, unique, address⟩ => ⟨visible, unique, address⟩,
      fun readable => ⟨readable.visible, readable.unique, readable.address⟩⟩

/-- Functions with an interface are handed over by the address sysfs spells, and the interfaces on
the others can be read. -/
structure HandedByAddress (fs : Sysfs) (devices : List (List Char)) : Prop where
  handed : ∀ i ∈ pciInterfaces fs, Named fs devices i.2 → Readable fs i.1 → i.2 ∈ devices
  others : ∀ i ∈ pciInterfaces fs, ¬ Named fs devices i.2 → Readable fs i.1

theorem strlistContains_iff {l : List (List Char)} {s : List Char} :
    strlistContains l s = true ↔ s ∈ l := by
  simp [strlistContains]

instance (fs : Sysfs) (devices : List (List Char)) : Decidable (HandedByAddress fs devices) :=
  decidable_of_iff
    ((∀ i ∈ pciInterfaces fs, Named fs devices i.2 → Readable fs i.1 →
        strlistContains devices i.2 = true) ∧
      ∀ i ∈ pciInterfaces fs, ¬ Named fs devices i.2 → Readable fs i.1)
    ⟨fun both => ⟨fun i member named readable =>
        strlistContains_iff.mp (both.1 i member named readable), both.2⟩,
      fun byAddress => ⟨fun i member named readable =>
        strlistContains_iff.mpr (byAddress.handed i member named readable), byAddress.others⟩⟩

def ToDescribe (fs : Sysfs) (devices : List (List Char)) (name : List Char) : Prop :=
  ∃ pci, (name, pci) ∈ pciInterfaces fs ∧ ¬ Named fs devices pci

theorem Readable.proper {fs : Sysfs} {name : List Char} (readable : Readable fs name) :
    name ≠ ".".toList ∧ name ≠ "..".toList := by
  refine ⟨?_, ?_⟩
  · rintro rfl
    exact readable.visible rfl
  · rintro rfl
    exact readable.visible rfl

section Text

variable {inet : Inet} {l : NetsnapLink}

theorem lineInterface_formatLink (fits : l.Fits) : lineInterface (formatLink l) = some l.name := by
  have link : IsWord 7 "link".toList := by decide +kernel
  rw [formatLink_eq]
  simp only [lineInterface, scanWord_then_space link, scanWord_space, scanWord_then_space fits.pci,
    scanWord_then_space fits.name, Option.bind_eq_bind, Option.bind_some, ne_eq, not_true_eq_false,
    if_false, Option.pure_def]

theorem lineInterface_other {kind rest : List Char} (word : IsWord 7 kind)
    (other : kind ≠ "link".toList) : lineInterface (kind ++ ' ' :: rest) = none := by
  simp only [lineInterface, scanWord_then_space word, Option.bind_eq_bind, Option.bind_some,
    ne_eq, other, not_false_eq_true, if_true, Option.bind_none]

theorem linkLines_interface (fits : l.Fits) :
    (linkLines inet l).filterMap lineInterface = [l.name] := by
  have addr : IsWord 7 "addr".toList ∧ "addr".toList ≠ "link".toList := by decide +kernel
  have route : IsWord 7 "route".toList ∧ "route".toList ≠ "link".toList := by decide +kernel
  have addrs : (l.addrs.map (formatAddr inet l.pci)).filterMap lineInterface = [] := by
    rw [List.filterMap_eq_nil_iff]
    intro line member
    obtain ⟨ad, _, rfl⟩ := List.mem_map.mp member
    rw [formatAddr_eq]
    exact lineInterface_other addr.1 addr.2
  have routes : (l.routes.map (formatRoute inet l.pci)).filterMap lineInterface = [] := by
    rw [List.filterMap_eq_nil_iff]
    intro line member
    obtain ⟨r, _, rfl⟩ := List.mem_map.mp member
    rw [formatRoute_eq]
    exact lineInterface_other route.1 route.2
  rw [linkLines, List.cons_append, List.filterMap_cons_some (lineInterface_formatLink fits),
    List.filterMap_append, addrs, routes, List.append_nil]

theorem textInterfaces_format {s : Netsnap} {len : ℕ} {text : List Char}
    (fits : ∀ l ∈ s.links, l.Fits) (formatted : netsnapFormat inet s len = .ok text) :
    textInterfaces text = s.links.map NetsnapLink.name := by
  have each : ∀ line ∈ s.links.flatMap (linkLines inet), '\n' ∉ line := by
    intro line member newline
    obtain ⟨l, isLink, inLines⟩ := List.mem_flatMap.mp member
    exact ((isLine_linkLines (fits l isLink) line inLines).clean _ newline).1 rfl
  rw [textInterfaces, foldlM_appendLine formatted, List.nil_append, textLines_lines each]
  clear each formatted
  generalize s.links = links at fits
  induction links with
  | nil => rfl
  | cons l links ih =>
      rw [List.flatMap_cons, List.filterMap_append, linkLines_interface (fits l (by simp)),
        ih fun other member => fits other (by simp [member])]
      rfl

end Text

section Directory

variable {fs : Sysfs} {skip : List (List Char)} {name pci : List Char}

theorem devnameResolve_net (named : name ≠ [] ∧ '/' ∉ name) (listed : fs.access .net name = true) :
    devnameResolve fs name 16 = .ok pci ↔
      functionOf fs name = some pci ∧
        ∀ c ∈ [SysClass.block, .graphics, .usb], fs.access c name = false := by
  have isName : ¬ (name = [] ∨ '/' ∈ name) := not_or.mpr named
  simp only [devnameResolve, functionOf, if_neg isName, List.filter_cons, listed, if_true,
    List.filter_nil, List.forall_mem_cons, List.not_mem_nil, false_implies, implies_true, and_true]
  cases fs.access .block name <;> cases fs.access .graphics name <;> cases fs.access .usb name <;>
    simp only [Bool.false_eq_true, Bool.true_eq_false, if_true, if_false, and_true, and_false,
      reduceCtorEq]
  cases fs.realpath .net name with
  | error errno => simp [Except.toOption]
  | ok path =>
      simp only [Except.toOption, Option.bind_some]
      cases found : path.dropLast.reverse.find? devnameIsPciId with
      | none => simp
      | some base =>
          have short := (devnameIsPciId_isWord (List.find?_some found)).short
          simp [List.take_of_length_le short]

theorem mem_pciInterfaces :
    (name, pci) ∈ pciInterfaces fs ↔ name ∈ fs.entries ∧ name ≠ ".".toList ∧ name ≠ "..".toList ∧
      functionOf fs name = some pci := by
  unfold pciInterfaces
  rw [List.mem_filterMap]
  constructor
  · rintro ⟨entry, member, found⟩
    split at found
    · simp at found
    · rename_i proper
      obtain ⟨pci, function, same⟩ := Option.map_eq_some_iff.mp found
      obtain ⟨rfl, rfl⟩ := Prod.mk.inj same
      obtain ⟨notSelf, notParent⟩ := not_or.mp proper
      exact ⟨member, notSelf, notParent, function⟩
  · rintro ⟨member, notSelf, notParent, function⟩
    refine ⟨name, member, ?_⟩
    rw [if_neg (not_or.mpr ⟨notSelf, notParent⟩), function]
    rfl

theorem collectedLink_name {l : NetsnapLink} (word : IsWord 15 name) (slash : '/' ∉ name)
    (listed : fs.access .net name = true) (link : collectedLink fs skip name = some l) :
    l.name = name ∧ functionOf fs name = some l.pci ∧ Readable fs name ∧ l.pci ∉ skip := by
  unfold collectedLink at link
  split at link
  · simp at link
  · rename_i visible
    cases read : readLink fs name with
    | error ret => simp [read, Except.toOption] at link
    | ok found =>
        obtain ⟨same, kept⟩ := Option.filter_eq_some_iff.mp link
        obtain rfl : found = l := by simpa [read, Except.toOption] using same
        obtain ⟨-, isName, resolved, text, address, scanned⟩ := readLink_ok word read
        obtain ⟨function, unique⟩ := (devnameResolve_net ⟨word.found, slash⟩ listed).mp resolved
        refine ⟨isName, function, ⟨visible, unique, ?_⟩, ?_⟩
        · rw [address]
          exact scanned
        · rw [← strlistContains_iff]
          simpa using kept

theorem exists_collectedLink (word : IsWord 15 name) (slash : '/' ∉ name)
    (listed : fs.access .net name = true) (function : functionOf fs name = some pci)
    (readable : Readable fs name) (kept : pci ∉ skip) :
    ∃ l, collectedLink fs skip name = some l ∧ l.name = name := by
  have resolved := (devnameResolve_net ⟨word.found, slash⟩ listed).mpr ⟨function, readable.unique⟩
  cases read : readLink fs name with
  | error ret =>
      have address := readable.address
      have unread := readLink_error word read []
      simp only [collectedOn, readable.visible, if_false, resolved] at unread
      cases file : fs.file name .address with
      | error errno => simp [file, Except.toOption] at address
      | ok text =>
          simp only [file, Except.toOption, Option.bind_some] at address
          simp [file, address, strlistContains] at unread
  | ok l =>
      obtain ⟨-, isName, isFunction, -⟩ := readLink_ok word read
      obtain rfl : l.pci = pci := by simpa [isFunction] using resolved
      refine ⟨l, ?_, isName⟩
      rw [collectedLink, if_neg readable.visible, read]
      rw [← strlistContains_iff] at kept
      simpa [Except.toOption] using kept

end Directory

theorem netsnapCollect_names {m : NetMachine} {skip : List (List Char)} {s : Netsnap}
    (collected : netsnapCollect m skip = .ok s) :
    s.links.map NetsnapLink.name =
      (collectLinks m.fs skip m.fs.entries []).map NetsnapLink.name := by
  refine @netsnapCollect_holds m skip s (fun after => after.links.map NetsnapLink.name =
    (collectLinks m.fs skip m.fs.entries []).map NetsnapLink.name) collected rfl ?_ ?_
  · intro h _ s after same called
    rcases collectAddr_cases called with rfl | ⟨i, l, ad, found, -, -, rfl⟩
    · exact same
    · refine Eq.trans ?_ same
      exact map_set_of_eq found rfl
  · intro h _ s after same called
    rcases collectRoute_cases called with rfl | ⟨i, l, ifindex, r, found, -, -, rfl⟩
    · exact same
    · refine Eq.trans ?_ same
      exact map_set_of_eq found rfl

theorem collected_le_pciInterfaces {m : NetMachine} (skip : List (List Char))
    (listed : ∀ name ∈ m.fs.entries, m.fs.access .net name = true) :
    (m.fs.entries.filterMap (collectedLink m.fs skip)).length ≤ (pciInterfaces m.fs).length := by
  rw [pciInterfaces, List.length_filterMap_eq_countP, List.length_filterMap_eq_countP]
  refine List.countP_mono_left ?_
  intro name isEntry collected
  obtain ⟨l, link⟩ := Option.isSome_iff_exists.mp collected
  obtain ⟨word, slash⟩ := m.names name isEntry
  obtain ⟨-, function, readable, -⟩ := collectedLink_name word slash (listed name isEntry) link
  have proper := readable.proper
  rw [if_neg (not_or.mpr proper), function]
  rfl

/-- With room for all of them, the text describes the interfaces that can be read and whose
function is not to be skipped. -/
theorem mem_textInterfaces {inet : Inet} {m : NetMachine} {skip : List (List Char)} {len count : ℕ}
    {text : List Char} (listed : ∀ name ∈ m.fs.entries, m.fs.access .net name = true)
    (few : (pciInterfaces m.fs).length ≤ NETSNAP_MAX_LINKS)
    (read : netsnapText inet m skip len = .ok (count, text)) (name : List Char) :
    name ∈ textInterfaces text ↔
      ∃ pci, (name, pci) ∈ pciInterfaces m.fs ∧ Readable m.fs name ∧ pci ∉ skip := by
  obtain ⟨snap, collected, formatted⟩ : ∃ snap, netsnapCollect m skip = .ok snap ∧
      netsnapFormat inet snap len = .ok text := by
    obtain ⟨snap, collected, read⟩ := bind_eq_ok.mp read
    obtain ⟨formattedText, formatted, read⟩ := bind_eq_ok.mp read
    obtain ⟨-, rfl⟩ := Prod.mk.inj (Except.ok.inj read)
    exact ⟨snap, collected, formatted⟩
  have names : snap.links.map NetsnapLink.name =
      (m.fs.entries.filterMap (collectedLink m.fs skip)).map NetsnapLink.name := by
    rw [netsnapCollect_names collected, collectLinks_eq (Nat.zero_le _), List.nil_append,
      List.take_of_length_le ((collected_le_pciInterfaces skip listed).trans few)]
  rw [textInterfaces_format (netsnapCollect_ok collected).2 formatted, names, List.mem_map]
  constructor
  · rintro ⟨l, member, rfl⟩
    obtain ⟨name, isEntry, link⟩ := List.mem_filterMap.mp member
    obtain ⟨word, slash⟩ := m.names name isEntry
    obtain ⟨rfl, function, readable, kept⟩ := collectedLink_name word slash (listed name isEntry) link
    obtain ⟨notSelf, notParent⟩ := readable.proper
    exact ⟨l.pci, mem_pciInterfaces.mpr ⟨isEntry, notSelf, notParent, function⟩, readable, kept⟩
  · rintro ⟨pci, member, readable, kept⟩
    obtain ⟨isEntry, -, -, function⟩ := mem_pciInterfaces.mp member
    obtain ⟨word, slash⟩ := m.names name isEntry
    obtain ⟨l, link, isName⟩ :=
      exists_collectedLink word slash (listed name isEntry) function readable kept
    exact ⟨l, List.mem_filterMap.mpr ⟨name, isEntry, link⟩, isName⟩

theorem resolveLoop_eq {fs : Sysfs} {granted : ℕ → Bool} {devices out resolved : List (List Char)}
    (loop : resolveLoop fs granted devices out = .ok resolved) :
    resolved = out ++ devices.filterMap fun device => (resolveDevice fs device).toOption := by
  induction devices generalizing out with
  | nil =>
      cases loop
      simp
  | cons device devices ih =>
      obtain ⟨base, name, loop⟩ := bind_eq_ok.mp loop
      split at loop
      · rw [ih loop, List.append_assoc, List.filterMap_cons, name]
        rfl
      · simp at loop

theorem resolveDevices_eq {fs : Sysfs} {granted : ℕ → Bool} {devices resolved : List (List Char)}
    (resolves : resolveDevices fs granted devices = .ok resolved) :
    resolved = devices.filterMap fun device => (resolveDevice fs device).toOption := by
  unfold resolveDevices at resolves
  split at resolves
  · exact resolveLoop_eq resolves
  · simp at resolves

theorem mem_resolveDevices {fs : Sysfs} {granted : ℕ → Bool} {devices resolved : List (List Char)}
    (resolves : resolveDevices fs granted devices = .ok resolved) (pci : List Char) :
    pci ∈ resolved ↔ ∃ device ∈ devices, resolveDevice fs device = .ok pci := by
  rw [resolveDevices_eq resolves, List.mem_filterMap]
  exact exists_congr fun device => and_congr_right fun _ => toOption_eq_some

theorem functionOf_isPciId {fs : Sysfs} {name pci : List Char}
    (function : functionOf fs name = some pci) : devnameIsPciId pci = true := by
  obtain ⟨path, -, found⟩ := Option.bind_eq_some_iff.mp function
  exact List.find?_some found

theorem named_of_resolved {fs : Sysfs} {devices : List (List Char)} {device pci : List Char}
    (member : device ∈ devices) (resolved : resolveDevice fs device = .ok pci) :
    Named fs devices pci := by
  refine ⟨device, member, ?_⟩
  unfold resolveDevice at resolved
  split at resolved
  · rename_i isId
    rw [if_pos isId, SameAddress, Except.ok.inj resolved]
  · rename_i isName
    rwa [if_neg isName]

theorem resolveDevice_of_isPciId {fs : Sysfs} {pci : List Char} (isId : devnameIsPciId pci = true) :
    resolveDevice fs pci = .ok pci :=
  if_pos isId

theorem netSnapshot_text {inet : Inet} {m : NetMachine} {skip : List (List Char)} {duplicated : Bool}
    {links : ℕ} {text : List Char} (snapshot : netSnapshot inet m skip duplicated = .ok (links, text)) :
    netsnapText inet m skip NETSNAP_TEXT_MAX = .ok (links, text) := by
  obtain ⟨⟨_, _⟩, read, snapshot⟩ := bind_eq_ok.mp snapshot
  simp only at snapshot
  split at snapshot
  · rw [read]
    exact snapshot
  · simp at snapshot

/-- What is handed over by address is skipped on both sides. -/
theorem HandedByAddress.skipped {fs : Sysfs} {granted : ℕ → Bool}
    {devices resolved : List (List Char)} (byAddress : HandedByAddress fs devices)
    (resolves : resolveDevices fs granted devices = .ok resolved) {name pci : List Char}
    (isInterface : (name, pci) ∈ pciInterfaces fs) (readable : Readable fs name) :
    (pci ∈ devices ↔ Named fs devices pci) ∧ (pci ∈ resolved ↔ Named fs devices pci) := by
  have isId := functionOf_isPciId (mem_pciInterfaces.mp isInterface).2.2.2
  have handed := byAddress.handed _ isInterface
  rw [mem_resolveDevices resolves]
  refine ⟨⟨?_, fun named => handed named readable⟩, ?_, ?_⟩
  · intro member
    exact named_of_resolved member (resolveDevice_of_isPciId isId)
  · rintro ⟨device, member, same⟩
    exact named_of_resolved member same
  · intro named
    exact ⟨pci, handed named readable, resolveDevice_of_isPciId isId⟩

/-- `arm` and `watch` describe the same interfaces, those the config does not hand over, exactly if
the functions with interfaces are handed over by address. -/
theorem textInterfaces_agree_iff (inet : Inet) (m : NetMachine) (devices : List (List Char))
    (granted : ℕ → Bool) (duplicated : Bool) {resolved : List (List Char)} {links count : ℕ}
    {armed watched : List Char}
    (listed : ∀ name ∈ m.fs.entries, m.fs.access .net name = true)
    (few : (pciInterfaces m.fs).length ≤ NETSNAP_MAX_LINKS)
    (resolves : resolveDevices m.fs granted devices = .ok resolved)
    (atArm : netSnapshot inet m resolved duplicated = .ok (links, armed))
    (atWatch : netsnapText inet m devices NETSNAP_TEXT_MAX = .ok (count, watched)) :
    (∀ name, (name ∈ textInterfaces watched ↔ name ∈ textInterfaces armed) ∧
        (name ∈ textInterfaces armed ↔ ToDescribe m.fs devices name)) ↔
      HandedByAddress m.fs devices := by
  have inArmed := mem_textInterfaces listed few (netSnapshot_text atArm)
  have inWatched := mem_textInterfaces listed few atWatch
  constructor
  · intro agree
    refine ⟨?_, ?_⟩
    · rintro ⟨name, pci⟩ isInterface named readable
      by_contra unlisted
      have described := (inWatched name).mpr ⟨pci, isInterface, readable, unlisted⟩
      obtain ⟨other, isOther, unnamed⟩ := (agree name).2.mp ((agree name).1.mp described)
      have function := (mem_pciInterfaces.mp isInterface).2.2.2
      have same := (mem_pciInterfaces.mp isOther).2.2.2
      obtain rfl : pci = other := by simpa [function] using same
      exact unnamed named
    · rintro ⟨name, pci⟩ isInterface unnamed
      obtain ⟨-, -, readable, -⟩ := (inArmed name).mp ((agree name).2.mpr ⟨pci, isInterface, unnamed⟩)
      exact readable
  · intro byAddress name
    rw [inArmed, inWatched]
    refine ⟨?_, ?_⟩
    · refine exists_congr fun pci => and_congr_right fun isInterface => and_congr_right fun readable => ?_
      obtain ⟨literal, address⟩ := byAddress.skipped resolves isInterface readable
      rw [literal, address]
    · refine exists_congr fun pci => and_congr_right fun isInterface => ?_
      constructor
      · rintro ⟨readable, kept⟩
        rwa [← (byAddress.skipped resolves isInterface readable).2]
      · intro unnamed
        have readable := byAddress.others _ isInterface unnamed
        exact ⟨readable, (byAddress.skipped resolves isInterface readable).2.not.mpr unnamed⟩

theorem twoPorts_listed (second : List Char) :
    ∀ name ∈ (twoPorts second).fs.entries, (twoPorts second).fs.access .net name = true :=
  fun _ _ => rfl

def secondPortText : List Char := "link 0000:01:00.1 eth1 52:54:00:12:34:56 1500\n".toList

theorem textInterfaces_agree_byAddress :
    resolveDevices (twoPorts "0000:01:00.1".toList).fs (fun _ => true) ["0000:01:00.0".toList] =
        .ok ["0000:01:00.0".toList] ∧
      ∀ name, (name ∈ textInterfaces secondPortText ↔ name ∈ textInterfaces secondPortText) ∧
        (name ∈ textInterfaces secondPortText ↔
          ToDescribe (twoPorts "0000:01:00.1".toList).fs ["0000:01:00.0".toList] name) := by
  have resolves : resolveDevices (twoPorts "0000:01:00.1".toList).fs (fun _ => true)
      ["0000:01:00.0".toList] = .ok ["0000:01:00.0".toList] := by decide +kernel
  have read : netsnapText textInet (twoPorts "0000:01:00.1".toList) ["0000:01:00.0".toList]
      NETSNAP_TEXT_MAX = .ok (1, secondPortText) := by decide +kernel
  have atArm : netSnapshot textInet (twoPorts "0000:01:00.1".toList) ["0000:01:00.0".toList] true =
      .ok (1, secondPortText) := by decide +kernel
  exact ⟨resolves, (textInterfaces_agree_iff textInet _ _ _ true (twoPorts_listed _) (by decide +kernel)
    resolves atArm read).mpr (by decide +kernel)⟩

/-- A config that hands over `eth0` by its name. -/
theorem textInterfaces_differ_byName :
    resolveDevices (twoPorts "0000:01:00.1".toList).fs (fun _ => true) ["eth0".toList] =
        .ok ["0000:01:00.0".toList] ∧
      netSnapshot textInet (twoPorts "0000:01:00.1".toList) ["0000:01:00.0".toList] true =
        .ok (1, secondPortText) ∧
      netsnapText textInet (twoPorts "0000:01:00.1".toList) ["eth0".toList] NETSNAP_TEXT_MAX =
        .ok (2, portsText "0000:01:00.1") ∧
      textInterfaces secondPortText = ["eth1".toList] ∧
      textInterfaces (portsText "0000:01:00.1") = ["eth0".toList, "eth1".toList] := by
  decide +kernel

end Kmorph
