import Kmorph.CollectCore
import Kmorph.Fallible
import Kmorph.Netsnap

/-!
Whether the successor can read the identity the predecessor sends: the lines of
every collected link can be read back, but links on one PCI function are refused.
-/

namespace Kmorph

/-- The PCI function of an interface that is to be collected. -/
def collectedOn (fs : Sysfs) (skip : List (List Char)) (name : List Char) : Option (List Char) :=
  if name.head? = some '.' then none
  else
    match devnameResolve fs name 16, fs.file name .address with
    | .ok pci, .ok text =>
        if (scanMac text).isSome && !strlistContains skip pci then some pci else none
    | _, _ => none

/-- The interfaces the identity has room for sit on functions of their own. -/
def OwnFunctions (m : NetMachine) (skip : List (List Char)) : Prop :=
  ((m.fs.entries.filterMap (collectedOn m.fs skip)).take NETSNAP_MAX_LINKS).Nodup

instance (m : NetMachine) (skip : List (List Char)) : Decidable (OwnFunctions m skip) :=
  inferInstanceAs (Decidable (List.Nodup _))

theorem devnameIsPciId_isWord {s : List Char} (isId : devnameIsPciId s = true) : IsWord 15 s := by
  simp only [devnameIsPciId, Bool.and_eq_true, decide_eq_true_eq, List.all_eq_true] at isId
  obtain ⟨length, each⟩ := isId
  have pattern : IsWord 12 "hhhh:hh:hh.h".toList := by decide +kernel
  refine ⟨List.ne_nil_of_length_pos (by omega), by omega, ?_⟩
  intro c member
  have aligned : s.length ≤ "hhhh:hh:hh.h".toList.length := Nat.le_of_eq length
  rw [← List.map_snd_zip aligned] at member
  obtain ⟨⟨p, c⟩, inZip, rfl⟩ := List.mem_map.mp member
  have matched := each _ inZip
  simp only at matched ⊢
  split at matched
  · exact (isWord_of_isXdigit (List.cons_ne_nil c []) (Nat.le_refl _)
      (List.forall_mem_singleton.mpr matched)).plain c (by simp)
  · rw [of_decide_eq_true matched]
    exact pattern.plain p (List.of_mem_zip inZip).1

theorem devnameResolve_isPciId {fs : Sysfs} {name pci : List Char}
    (resolved : devnameResolve fs name 16 = .ok pci) : devnameIsPciId pci = true := by
  simp only [devnameResolve] at resolved
  split at resolved
  · simp at resolved
  · split at resolved
    · simp at resolved
    · split at resolved
      · simp at resolved
      · split at resolved
        · simp at resolved
        · rename_i base found
          cases resolved
          have isId := List.find?_some found
          rwa [List.take_of_length_le (devnameIsPciId_isWord isId).short]
    · simp at resolved

theorem devnameResolve_isWord {fs : Sysfs} {name pci : List Char}
    (resolved : devnameResolve fs name 16 = .ok pci) : IsWord 15 pci :=
  devnameIsPciId_isWord (devnameResolve_isPciId resolved)

theorem readLink_ok {fs : Sysfs} {name : List Char} {l : NetsnapLink} (word : IsWord 15 name)
    (read : readLink fs name = .ok l) :
    l.Fits ∧ l.name = name ∧ devnameResolve fs name 16 = .ok l.pci ∧
      ∃ text, fs.file name .address = .ok text ∧ (scanMac text).isSome := by
  simp only [readLink] at read
  split at read
  · simp at read
  · split at read
    · simp at read
    · rename_i pci resolved
      split at read
      · simp at read
      · rename_i text address
        split at read
        · simp at read
        · rename_i mac rest scanned
          cases read
          exact ⟨⟨devnameResolve_isWord resolved, word, by simp, by simp, by simp, by simp⟩, rfl,
            resolved, text, address, by simp [scanned]⟩

theorem readLink_error {fs : Sysfs} {name : List Char} {ret : Int} (word : IsWord 15 name)
    (failed : readLink fs name = .error ret) (skip : List (List Char)) :
    collectedOn fs skip name = none := by
  have short := word.short
  simp only [readLink] at failed
  rw [if_neg (by omega)] at failed
  rw [collectedOn]
  split
  · rfl
  · split
    · rename_i pci text resolved address
      simp only [resolved, address] at failed
      split at failed
      · rename_i unread
        rw [unread]
        rfl
      · simp at failed
    · rfl

theorem readLink_collectedOn {fs : Sysfs} {name : List Char} {l : NetsnapLink}
    (word : IsWord 15 name) (visible : name.head? ≠ some '.') (read : readLink fs name = .ok l)
    (skip : List (List Char)) :
    collectedOn fs skip name = if strlistContains skip l.pci then none else some l.pci := by
  obtain ⟨-, -, resolved, text, address, scanned⟩ := readLink_ok word read
  simp only [collectedOn, visible, if_false, resolved, address, scanned, Bool.true_and]
  cases strlistContains skip l.pci <;> rfl

/-- The link an entry of the directory becomes. -/
def collectedLink (fs : Sysfs) (skip : List (List Char)) (name : List Char) : Option NetsnapLink :=
  if name.head? = some '.' then none
  else (readLink fs name).toOption.filter fun l => !strlistContains skip l.pci

theorem collectLinks_eq {fs : Sysfs} {skip : List (List Char)} {names : List (List Char)}
    {links : List NetsnapLink} (few : links.length ≤ NETSNAP_MAX_LINKS) :
    collectLinks fs skip names links =
      (links ++ names.filterMap (collectedLink fs skip)).take NETSNAP_MAX_LINKS := by
  induction names generalizing links with
  | nil => rw [collectLinks, List.filterMap_nil, List.append_nil, List.take_of_length_le few]
  | cons name names ih =>
      rw [collectLinks]
      split
      · rename_i room
        have passed (none : collectedLink fs skip name = none) :
            collectLinks fs skip names links =
              (links ++ (name :: names).filterMap (collectedLink fs skip)).take NETSNAP_MAX_LINKS := by
          rw [ih few, List.filterMap_cons_none none]
        split
        · rename_i hidden
          exact passed (if_pos hidden)
        · rename_i visible
          split
          · rename_i ret failed
            exact passed (by rw [collectedLink, if_neg visible, failed]; rfl)
          · rename_i l read
            have link : collectedLink fs skip name =
                if strlistContains skip l.pci then none else some l := by
              rw [collectedLink, if_neg visible, read]
              cases found : strlistContains skip l.pci <;> simp [Except.toOption, found]
            split
            · rename_i skipped
              exact passed (by rw [link, if_pos skipped])
            · rename_i kept
              rw [if_neg kept] at link
              rw [ih (by simp only [List.length_append, List.length_singleton]; omega),
                List.filterMap_cons_some link, List.append_assoc]
              rfl
      · rename_i full
        rw [List.take_append_of_le_length (by omega), List.take_of_length_le few]

theorem collectedLink_pci {fs : Sysfs} {name : List Char} (word : IsWord 15 name)
    (skip : List (List Char)) :
    (collectedLink fs skip name).map NetsnapLink.pci = collectedOn fs skip name := by
  by_cases hidden : name.head? = some '.'
  · rw [collectedLink, collectedOn, if_pos hidden, if_pos hidden]
    rfl
  · rw [collectedLink, if_neg hidden]
    cases read : readLink fs name with
    | error ret =>
        rw [readLink_error word read skip]
        rfl
    | ok l =>
        rw [readLink_collectedOn word hidden read skip]
        cases found : strlistContains skip l.pci <;> simp [Except.toOption, found]

theorem collectLinks_pcis {fs : Sysfs} {skip : List (List Char)} {names : List (List Char)}
    (words : ∀ name ∈ names, IsWord 15 name) :
    (collectLinks fs skip names []).map NetsnapLink.pci =
      (names.filterMap (collectedOn fs skip)).take NETSNAP_MAX_LINKS := by
  rw [collectLinks_eq (Nat.zero_le _), List.nil_append, List.map_take, List.map_filterMap]
  congr 1
  exact List.filterMap_congr fun name member => collectedLink_pci (words name member) skip

theorem collectLinks_fits {fs : Sysfs} {skip : List (List Char)} {names : List (List Char)}
    (words : ∀ name ∈ names, IsWord 15 name) :
    ∀ l ∈ collectLinks fs skip names [], l.Fits := by
  intro l member
  rw [collectLinks_eq (Nat.zero_le _), List.nil_append] at member
  obtain ⟨name, isName, link⟩ := List.mem_filterMap.mp (List.mem_of_mem_take member)
  unfold collectedLink at link
  split at link
  · simp at link
  · cases read : readLink fs name with
    | error ret => simp [read, Except.toOption] at link
    | ok found =>
        obtain ⟨same, _⟩ := Option.filter_eq_some_iff.mp link
        obtain rfl : found = l := by simpa [read, Except.toOption] using same
        exact (readLink_ok (words name isName) read).1

/-- A dump changes neither the functions of the links nor that their lines can be read back. -/
structure LinksKept (s after : Netsnap) : Prop where
  pcis : after.links.map NetsnapLink.pci = s.links.map NetsnapLink.pci
  fits : (∀ l ∈ s.links, l.Fits) → ∀ l ∈ after.links, l.Fits

theorem LinksKept.refl (s : Netsnap) : LinksKept s s := ⟨rfl, id⟩

theorem LinksKept.trans {s middle after : Netsnap} (first : LinksKept s middle) (second : LinksKept middle after) :
    LinksKept s after :=
  ⟨second.pcis.trans first.pcis, second.fits ∘ first.fits⟩

theorem LinksKept.set {s : Netsnap} {i : ℕ} {l new : NetsnapLink} (found : s.links[i]? = some l)
    (samePci : new.pci = l.pci) (fits : l.Fits → new.Fits) : LinksKept s ⟨s.links.set i new⟩ := by
  refine ⟨map_set_of_eq found samePci, ?_⟩
  intro all other isOther
  rcases List.mem_or_eq_of_mem_set isOther with old | rfl
  · exact all other old
  · exact fits (all l (List.mem_of_getElem? found))

theorem lifeEnd_isTime {h : AddrMsg} (clock : h.now < 2 ^ 62) (field : ℕ) :
    IsTime (lifeEnd h field) := by
  simp only [lifeEnd]
  split
  · exact ⟨by decide, by decide⟩
  · rename_i data info
    split
    · have bound := Records.decodeField_lt ((data.drop (4 * field)).take 4)
      have width : 256 ^ ((data.drop (4 * field)).take 4).length ≤ 256 ^ 4 :=
        Nat.pow_le_pow_right (by decide) (List.length_take_le ..)
      split
      · exact ⟨by decide, by decide⟩
      · exact ⟨by omega, by omega⟩
    · exact ⟨by decide, by decide⟩

theorem addrOf_fits {h : AddrMsg} {ad : NetsnapAddr} (clock : h.now < 2 ^ 62)
    (inWidth : ∀ family ∈ familyOf h.family, h.prefixlen.toNat ≤ addrLen family * 8)
    (found : addrOf h = some ad) : ad.Fits := by
  simp only [addrOf] at found
  split at found
  · simp at found
  · simp only [Option.bind_eq_bind, Option.bind_eq_some_iff] at found
    obtain ⟨family, isFamily, found⟩ := found
    split at found
    · simp at found
    · simp only [Option.bind_eq_some_iff, Option.pure_def, Option.some.injEq] at found
      obtain ⟨addr, -, rfl⟩ := found
      exact ⟨inWidth family isFamily, lifeEnd_isTime clock 1, lifeEnd_isTime clock 0⟩

theorem collectAddr_cases {s after : Netsnap} {h : AddrMsg} (collected : collectAddr s h = .ok after) :
    after = s ∨ ∃ i l ad, s.links[i]? = some l ∧ addrOf h = some ad ∧
      l.addrs.length ≠ NETSNAP_MAX_ADDRS ∧
      after = ⟨s.links.set i { l with addrs := l.addrs ++ [ad] }⟩ := by
  simp only [collectAddr] at collected
  split at collected
  · rename_i i ad byIndex isAddr
    split at collected
    · exact Or.inl (Except.ok.inj collected).symm
    · rename_i l found
      split at collected
      · simp at collected
      · rename_i room
        exact Or.inr ⟨i, l, ad, found, isAddr, room, (Except.ok.inj collected).symm⟩
  · exact Or.inl (Except.ok.inj collected).symm

theorem collectAddr_kept {s after : Netsnap} {h : AddrMsg} (clock : h.now < 2 ^ 62)
    (inWidth : ∀ family ∈ familyOf h.family, h.prefixlen.toNat ≤ addrLen family * 8)
    (collected : collectAddr s h = .ok after) : LinksKept s after := by
  rcases collectAddr_cases collected with rfl | ⟨i, l, ad, found, isAddr, room, rfl⟩
  · exact LinksKept.refl after
  · refine LinksKept.set found rfl fun fits => ?_
    have few := fits.fewAddrs
    refine ⟨fits.pci, fits.name, ?_, fits.fewRoutes, ?_, fits.routes⟩
    · simp only [List.length_append, List.length_singleton]
      omega
    · rw [List.forall_mem_append, List.forall_mem_singleton]
      exact ⟨fits.addrs, addrOf_fits clock inWidth isAddr⟩

theorem routeOf_fits {h : RouteMsg} {ifindex : Int} {r : NetsnapRoute}
    (inWidth : ∀ family ∈ familyOf h.family, h.dstLen.toNat ≤ addrLen family * 8)
    (found : routeOf h = some (ifindex, r)) : r.Fits := by
  simp only [routeOf] at found
  split at found
  · simp at found
  · simp only [Option.bind_eq_bind, Option.bind_eq_some_iff] at found
    obtain ⟨family, isFamily, found⟩ := found
    split at found
    · simp at found
    · split at found
      · simp at found
      · simp only [Option.bind_eq_some_iff, Option.pure_def, Option.some.injEq] at found
        obtain ⟨oif, -, same⟩ := found
        obtain ⟨-, rfl⟩ := Prod.mk.inj same
        exact inWidth family isFamily

theorem collectRoute_cases {s after : Netsnap} {h : RouteMsg}
    (collected : collectRoute s h = .ok after) :
    after = s ∨ ∃ i l ifindex r, s.links[i]? = some l ∧ routeOf h = some (ifindex, r) ∧
      l.routes.length ≠ NETSNAP_MAX_ROUTES ∧
      after = ⟨s.links.set i { l with routes := l.routes ++ [r] }⟩ := by
  simp only [collectRoute] at collected
  split at collected
  · exact Or.inl (Except.ok.inj collected).symm
  · rename_i ifindex r isRoute
    split at collected
    · exact Or.inl (Except.ok.inj collected).symm
    · split at collected
      · exact Or.inl (Except.ok.inj collected).symm
      · rename_i l found
        split at collected
        · simp at collected
        · rename_i room
          exact Or.inr ⟨_, l, ifindex, r, found, isRoute, room, (Except.ok.inj collected).symm⟩

theorem collectRoute_kept {s after : Netsnap} {h : RouteMsg}
    (inWidth : ∀ family ∈ familyOf h.family, h.dstLen.toNat ≤ addrLen family * 8)
    (collected : collectRoute s h = .ok after) : LinksKept s after := by
  rcases collectRoute_cases collected with rfl | ⟨i, l, ifindex, r, found, isRoute, room, rfl⟩
  · exact LinksKept.refl after
  · refine LinksKept.set found rfl fun fits => ?_
    have few := fits.fewRoutes
    refine ⟨fits.pci, fits.name, fits.fewAddrs, ?_, fits.addrs, ?_⟩
    · simp only [List.length_append, List.length_singleton]
      omega
    · rw [List.forall_mem_append, List.forall_mem_singleton]
      exact ⟨fits.routes, routeOf_fits inWidth isRoute⟩

/-- What the callback keeps for every message, the dump keeps. -/
theorem rtnlDump_holds {μ : Type} {answer : RtnlAnswer μ} {cb : Netsnap → μ → Except Int Netsnap}
    {holds : Netsnap → Prop} {s after : Netsnap} (start : holds s)
    (each : ∀ h ∈ answer.messages, ∀ s after, holds s → cb s h = .ok after → holds after)
    (dumped : rtnlDump answer cb s = .ok after) : holds after := by
  simp only [rtnlDump] at dumped
  split at dumped
  · simp at dumped
  · rename_i last folded
    split at dumped
    · simp at dumped
    · cases dumped
      exact Fallible.foldlM_holds start each folded

/-- The collected identity has the links of the directory, and whatever the dumps keep of them. -/
theorem netsnapCollect_holds {m : NetMachine} {skip : List (List Char)} {s : Netsnap}
    {holds : Netsnap → Prop} (collected : netsnapCollect m skip = .ok s)
    (start : holds ⟨collectLinks m.fs skip m.fs.entries []⟩)
    (addrs : ∀ h ∈ m.addrs.messages, ∀ s after, holds s → collectAddr s h = .ok after → holds after)
    (routes : ∀ h ∈ m.routes.messages, ∀ s after, holds s → collectRoute s h = .ok after →
      holds after) : holds s := by
  simp only [netsnapCollect] at collected
  split at collected
  · simp at collected
  · split at collected
    · rename_i none
      cases collected
      rwa [none] at start
    · split at collected
      · simp at collected
      · split at collected
        · simp at collected
        · rename_i middle dumped
          exact rtnlDump_holds (rtnlDump_holds start addrs dumped) routes collected

theorem netsnapCollect_ok {m : NetMachine} {skip : List (List Char)} {s : Netsnap}
    (collected : netsnapCollect m skip = .ok s) :
    s.links.map NetsnapLink.pci =
        (m.fs.entries.filterMap (collectedOn m.fs skip)).take NETSNAP_MAX_LINKS ∧
      ∀ l ∈ s.links, l.Fits := by
  have words : ∀ name ∈ m.fs.entries, IsWord 15 name := fun name member => (m.names name member).1
  have kept : LinksKept ⟨collectLinks m.fs skip m.fs.entries []⟩ s := by
    refine netsnapCollect_holds collected (LinksKept.refl _) ?_ ?_
    · intro h member s after start called
      exact start.trans (collectAddr_kept (m.clock h member) (m.addrPrefix h member) called)
    · intro h member s after start called
      exact start.trans (collectRoute_kept (m.routePrefix h member) called)
  exact ⟨kept.pcis.trans (collectLinks_pcis words), kept.fits (collectLinks_fits words)⟩

/-- The successor reads the identity the predecessor formats, if and only if the interfaces in it
sit on PCI functions of their own. -/
theorem netsnapCollect_readBack_iff (inet : Inet) (m : NetMachine) (skip : List (List Char))
    {s : Netsnap} {len : ℕ} {text : List Char} (collected : netsnapCollect m skip = .ok s)
    (formatted : netsnapFormat inet s len = .ok text) :
    netsnapParse inet text = .ok ⟨s.links.map NetsnapLink.cleared⟩ ↔ OwnFunctions m skip := by
  obtain ⟨pcis, fits⟩ := netsnapCollect_ok collected
  have few : s.links.length ≤ NETSNAP_MAX_LINKS := by
    have := congrArg List.length pcis
    rw [List.length_map, List.length_take] at this
    omega
  rw [netsnapParse_format few fits formatted, OwnFunctions, ← pcis]
  by_cases distinct : (s.links.map NetsnapLink.pci).Nodup
  · simp only [distinct, if_true]
  · simp only [distinct, if_false, reduceCtorEq]

def portNames : List (List Char) := [".".toList, "eth0".toList, "eth1".toList]

theorem portNames_plain : ∀ name ∈ portNames, IsWord 15 name ∧ '/' ∉ name := by decide +kernel

/-- Two interfaces, the second on the given PCI function, and an address on the first. -/
def twoPorts (second : List Char) : NetMachine where
  fs := {
    entries := portNames
    access := fun c _ => c = .net
    realpath := fun _ name => .ok ["sys".toList, "devices".toList,
      if name = "eth0".toList then "0000:01:00.0".toList else second, "net".toList, name]
    file := fun name attr => .ok (
      if attr = .address then "52:54:00:12:34:56".toList
      else if attr = .mtu then "1500".toList
      else if name = "eth0".toList then "2".toList else "3".toList)
  }
  opened := 0
  socket := 3
  addrs := ⟨[⟨RTM_NEWADDR, AF_INET, 24, 0, 0, 2, [(IFA_LOCAL, [10, 0, 0, 2])], 1000⟩], 0⟩
  routes := ⟨[], 0⟩
  names := portNames_plain
  addrPrefix := by
    simp [familyOf, AF_INET, addrLen]
  routePrefix := by simp
  clock := by simp

def portLink (name : String) (pci : List Char) (ifindex : Int) (addrs : List NetsnapAddr) :
    NetsnapLink :=
  ⟨pci, name.toList, ⟨0x52, 0x54, 0x00, 0x12, 0x34, 0x56⟩, 1500, ifindex, addrs, []⟩

def portsSnap (second : List Char) : Netsnap :=
  ⟨[portLink "eth0" "0000:01:00.0".toList 2 [⟨.inet, 24, #v[10, 0, 0, 2], none, 0, 0⟩],
    portLink "eth1" second 3 []]⟩

def portsText (second : String) : List Char :=
  ("link 0000:01:00.0 eth0 52:54:00:12:34:56 1500\n" ++
    "addr 0000:01:00.0 10.0.0.2/24 - forever forever\n" ++
    "link " ++ second ++ " eth1 52:54:00:12:34:56 1500\n").toList

theorem netsnapCollect_readBack_twoPorts :
    netsnapCollect (twoPorts "0000:01:00.1".toList) [] = .ok (portsSnap "0000:01:00.1".toList) ∧
      netsnapFormat textInet (portsSnap "0000:01:00.1".toList) NETSNAP_TEXT_MAX =
        .ok (portsText "0000:01:00.1") ∧
      OwnFunctions (twoPorts "0000:01:00.1".toList) [] ∧
      netsnapParse textInet (portsText "0000:01:00.1") =
        .ok ⟨(portsSnap "0000:01:00.1".toList).links.map NetsnapLink.cleared⟩ := by
  have collected : netsnapCollect (twoPorts "0000:01:00.1".toList) [] =
      .ok (portsSnap "0000:01:00.1".toList) := by decide +kernel
  have formatted : netsnapFormat textInet (portsSnap "0000:01:00.1".toList) NETSNAP_TEXT_MAX =
      .ok (portsText "0000:01:00.1") := by decide +kernel
  have own : OwnFunctions (twoPorts "0000:01:00.1".toList) [] := by decide +kernel
  exact ⟨collected, formatted, own,
    (netsnapCollect_readBack_iff textInet _ [] collected formatted).mpr own⟩

/-- Both interfaces of a two-port card with one PCI function: the text is refused. -/
theorem netsnapCollect_sharedFunction_refused :
    netsnapCollect (twoPorts "0000:01:00.0".toList) [] = .ok (portsSnap "0000:01:00.0".toList) ∧
      netsnapFormat textInet (portsSnap "0000:01:00.0".toList) NETSNAP_TEXT_MAX =
        .ok (portsText "0000:01:00.0") ∧
      netsnapParse textInet (portsText "0000:01:00.0") = .error (-EINVAL) := by
  decide +kernel

end Kmorph
