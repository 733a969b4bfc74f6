import Kmorph.NetsnapCore
import Mathlib.Data.List.DropRight

/-!
The text form of a network identity: what is parsed is well formed, and a well
formed identity is read back from the lines it is formatted as.
-/

namespace Kmorph

/-- A lifetime that is written as a number of 64 bits, or as forever. -/
structure IsTime (time : Int) : Prop where
  positive : 0 ≤ time
  fits : time < 2 ^ 63

structure NetsnapAddr.Fits (ad : NetsnapAddr) : Prop where
  inWidth : ad.prefixLen.toNat ≤ addrLen ad.family * 8
  valid : IsTime ad.validUntil
  preferred : IsTime ad.preferredUntil

def NetsnapRoute.Fits (r : NetsnapRoute) : Prop := r.dstLen.toNat ≤ addrLen r.family * 8

/-- A link whose lines can be read back. -/
structure NetsnapLink.Fits (l : NetsnapLink) : Prop where
  pci : IsWord 15 l.pci
  name : IsWord 15 l.name
  fewAddrs : l.addrs.length ≤ NETSNAP_MAX_ADDRS
  fewRoutes : l.routes.length ≤ NETSNAP_MAX_ROUTES
  addrs : ∀ ad ∈ l.addrs, ad.Fits
  routes : ∀ r ∈ l.routes, r.Fits

theorem scanWord_then_space {width : ℕ} {word rest : List Char} (isWord : IsWord width word) :
    scanWord width (word ++ ' ' :: rest) = some (word, ' ' :: rest) :=
  scanWord_word isWord (stops_cons rfl)

theorem scanWord_end {width : ℕ} {word : List Char} (isWord : IsWord width word) :
    scanWord width word = some (word, []) := by
  have scanned := scanWord_word isWord (stops_nil fun c => !isSpace c)
  rwa [List.append_nil] at scanned

theorem scanWord_dropWhile (width : ℕ) (text : List Char) :
    scanWord width (text.dropWhile isSpace) = scanWord width text := by
  simp only [scanWord, List.dropWhile_idempotent]

theorem IsWord.mono {width wider : ℕ} {word : List Char} (isWord : IsWord width word)
    (le : width ≤ wider) : IsWord wider word :=
  ⟨isWord.found, Nat.le_trans isWord.short le, isWord.plain⟩

theorem isWord_of_isXdigit {digits : List Char} {width : ℕ} (found : digits ≠ [])
    (short : digits.length ≤ width) (all : ∀ c ∈ digits, isXdigit c = true) :
    IsWord width digits := by
  refine ⟨found, short, fun c member => ⟨(isXdigit_plain (all c member)).1, ?_⟩⟩
  rintro rfl
  exact absurd (all _ member) (by decide)

theorem isWord_formatUnsigned {n k : ℕ} (fits : n < 10 ^ (k + 1)) :
    IsWord (k + 1) (formatUnsigned n) :=
  isWord_of_isXdigit (formatUnsigned_ne_nil n) (length_formatUnsigned fits)
    fun c member => isXdigit_of_isDigit (isDigit_formatUnsigned n c member)

section Fields

variable (inet : Inet) {family : Family}

theorem getIp_ntop (addr : IpAddr family) :
    getIp inet (inet.ntop family addr) = some ⟨family, addr⟩ := by
  have found : (if ':' ∈ inet.ntop family addr then Family.inet6 else .inet) = family := by
    cases family with
    | inet => exact if_neg fun colon => by simpa using (inet.colon _ addr).mp colon
    | inet6 => exact if_pos ((inet.colon _ addr).mpr rfl)
  unfold getIp
  generalize (if ':' ∈ inet.ntop family addr then Family.inet6 else .inet) = chosen at found
  subst found
  simp only [inet.pton_ntop, Option.map_some]

theorem getPrefix_format (addr : IpAddr family) {n : UInt8}
    (fits : n.toNat ≤ addrLen family * 8) :
    getPrefix inet (inet.ntop family addr ++ '/' :: formatUnsigned n.toNat) =
      some ⟨family, addr, n⟩ := by
  have small := n.toNat_lt
  have before : ∀ c ∈ inet.ntop family addr, (decide (c ≠ '/')) = true := by
    intro c member
    have := inet.noSlash family addr
    simp only [decide_eq_true_eq]
    rintro rfl
    exact this member
  have stops : Stops (fun c => decide (c ≠ '/')) ('/' :: formatUnsigned n.toNat) := stops_cons rfl
  have taken := takeWhile_chunk before stops
  have dropped : (inet.ntop family addr ++ '/' :: formatUnsigned n.toNat).dropWhile
      (fun c => decide (c ≠ '/')) = '/' :: formatUnsigned n.toNat := by
    rw [List.dropWhile_append_of_pos before]
    rfl
  rw [getPrefix, if_pos (by simp), taken, dropped]
  simp only [List.tail_cons, strtoul_format (show n.toNat < 2 ^ 64 by omega), getIp_ntop,
    ne_eq, not_true_eq_false, false_or]
  rw [if_neg (by omega), UInt8.ofNat_toNat]

theorem isWord_addrPrefix (addr : IpAddr family) (n : UInt8) :
    IsWord 63 (inet.ntop family addr ++ '/' :: formatUnsigned n.toNat) := by
  have small := n.toNat_lt
  have word := inet.isWord family addr
  have digits := isWord_formatUnsigned (show n.toNat < 10 ^ (2 + 1) by omega)
  refine ⟨by simp, ?_, ?_⟩
  · have inAddr := word.short
    have inDigits := digits.short
    simp only [INET6_ADDRSTRLEN] at inAddr
    simp only [List.length_append, List.length_cons]
    omega
  · intro c member
    simp only [List.mem_append, List.mem_cons] at member
    rcases member with inAddr | rfl | inDigits
    · exact word.plain c inAddr
    · decide
    · exact digits.plain c inDigits

theorem getOptional_put (addr : Option (IpAddr family)) :
    getOptional inet family (putOptional inet family addr) = some addr := by
  cases addr with
  | none => rfl
  | some addr =>
      simp only [putOptional, Option.elim_some, getOptional, inet.notDash, if_false, getIp_ntop,
        dite_true]

theorem isWord_putOptional (addr : Option (IpAddr family)) :
    IsWord 63 (putOptional inet family addr) := by
  cases addr with
  | none =>
      have dash : IsWord 63 "-".toList := by decide +kernel
      exact dash
  | some addr => exact (inet.isWord family addr).mono (by decide)

theorem getUntil_put {time : Int} (isTime : IsTime time) :
    getUntil (putUntil time) = some time := by
  have positive := isTime.positive
  unfold putUntil
  split
  · rename_i zero
    rw [zero]
    rfl
  · rename_i nonzero
    have notForever : formatSigned time ≠ "forever".toList := by
      intro same
      have letter : 'f' ∈ formatSigned time := by
        rw [same]
        decide
      rw [formatSigned, if_neg (by omega)] at letter
      exact absurd (isDigit_formatUnsigned _ _ letter) (by decide)
    simp only [getUntil, notForever, if_false, strtoll_format positive isTime.fits, ne_eq,
      not_true_eq_false, false_or]
    rw [if_neg (by omega)]

theorem isWord_putUntil {time : Int} (isTime : IsTime time) : IsWord 23 (putUntil time) := by
  have positive := isTime.positive
  have fits := isTime.fits
  unfold putUntil
  split
  · decide +kernel
  · rw [formatSigned, if_neg (by omega)]
    exact (isWord_formatUnsigned (show time.natAbs < 10 ^ (18 + 1) by omega)).mono (by decide)

end Fields

theorem scanMac_format (m : Mac) (rest : List Char) :
    scanMac (formatMac m ++ ' ' :: rest) = some (m, ' ' :: rest) := by
  have colon (b : UInt8) (rest : List Char) :
      scanHex (formatByte b ++ ':' :: rest) = some (b.toNat, ':' :: rest) :=
    scanHex_formatByte b (stops_cons rfl) (stops_cons rfl)
  have space (b : UInt8) (rest : List Char) :
      scanHex (formatByte b ++ ' ' :: rest) = some (b.toNat, ' ' :: rest) :=
    scanHex_formatByte b (stops_cons rfl) (stops_cons rfl)
  simp only [scanMac, formatMac, List.append_assoc, List.cons_append, colon, space, scanColon,
    Option.bind_eq_bind, Option.bind_some, UInt8.ofNat_toNat, Option.pure_def]

@[simp] theorem scanMac_space (text : List Char) : scanMac (' ' :: text) = scanMac text := rfl

/-- A link as the parser leaves it. -/
def NetsnapLink.cleared (l : NetsnapLink) : NetsnapLink := { l with ifindex := 0 }

section Lines

variable {inet : Inet} {s : Netsnap} {l : NetsnapLink} {before : List NetsnapLink}

theorem parseLine_word {kind pci rest : List Char} (kindWord : IsWord 7 kind)
    (pciWord : IsWord 15 pci) :
    parseLine inet s (kind ++ ' ' :: (pci ++ ' ' :: rest)) = (do
      let rest := rest.dropWhile isSpace
      if kind = "link".toList then parseLink s pci rest
      else
        let i ← linkByPci s pci
        let l ← s.links[i]?
        let l ←
          if kind = "addr".toList then parseAddr inet l rest
          else if kind = "route".toList then parseRoute inet l rest
          else none
        return ⟨s.links.set i l⟩) := by
  have space : (' ' :: rest).dropWhile isSpace = rest.dropWhile isSpace := rfl
  simp only [parseLine, scanWord_then_space kindWord, scanWord_space,
    scanWord_then_space (pciWord.mono (by decide : 15 ≤ 31)), Option.bind_eq_bind,
    Option.bind_some, space]

theorem formatLink_eq (l : NetsnapLink) :
    formatLink l = "link".toList ++ ' ' :: (l.pci ++ ' ' :: (l.name ++ ' ' ::
      (formatMac l.mac ++ ' ' :: formatUnsigned l.mtu.toNat))) := by
  unfold formatLink
  simp only [List.append_assoc, List.cons_append]

theorem parseLine_link (fits : l.Fits) :
    parseLine inet s (formatLink l) =
      if s.links.length = NETSNAP_MAX_LINKS ∨ (linkByPci s l.pci).isSome then none
      else some ⟨s.links ++ [{ l with ifindex := 0, addrs := [], routes := [] }]⟩ := by
  have short := fits.pci.short
  have link : IsWord 7 "link".toList := by decide +kernel
  have mtu := scanUnsigned_format (show l.mtu.toNat < 2 ^ 64 by have := l.mtu.toNat_lt; omega)
    (stops_nil Char.isDigit)
  rw [List.append_nil] at mtu
  rw [formatLink_eq, parseLine_word link fits.pci, if_pos rfl]
  by_cases refused : s.links.length = NETSNAP_MAX_LINKS ∨ (linkByPci s l.pci).isSome
  · rw [parseLink, if_pos (refused.imp_right Or.inl), if_pos refused]
    rfl
  · have accepted : ¬ (s.links.length = NETSNAP_MAX_LINKS ∨ (linkByPci s l.pci).isSome ∨
        l.pci.length ≥ 16) := by
      simp only [not_or] at refused ⊢
      exact ⟨refused.1, refused.2, by omega⟩
    rw [parseLink, if_neg accepted, if_neg refused]
    simp only [scanWord_dropWhile, scanWord_then_space fits.name, scanMac_space, scanMac_format,
      scanUnsigned_space, mtu, Option.bind_eq_bind, Option.bind_some, Option.pure_def,
      UInt32.ofNat_toNat]

theorem set_last (before : List NetsnapLink) (l new : NetsnapLink) :
    (before ++ [l]).set before.length new = before ++ [new] := by
  simp

theorem linkByPci_isSome {pci : List Char} :
    (linkByPci s pci).isSome ↔ pci ∈ s.links.map NetsnapLink.pci := by
  simp only [linkByPci, List.findIdx?_isSome, List.any_eq_true, decide_eq_true_eq, List.mem_map]

theorem linkByPci_last (fresh : ∀ other ∈ before, other.pci ≠ l.pci) :
    linkByPci ⟨before ++ [l]⟩ l.pci = some before.length := by
  have notBefore : before.findIdx? (fun other => decide (other.pci = l.pci)) = none := by
    rw [List.findIdx?_eq_none_iff]
    intro other member
    simpa using fresh other member
  simp [linkByPci, List.findIdx?_append, notBefore]

theorem formatAddr_eq (inet : Inet) (pci : List Char) (ad : NetsnapAddr) :
    formatAddr inet pci ad = "addr".toList ++ ' ' :: (pci ++ ' ' ::
      ((inet.ntop ad.family ad.addr ++ '/' :: formatUnsigned ad.prefixLen.toNat) ++ ' ' ::
        (putOptional inet ad.family ad.brd ++ ' ' :: (putUntil ad.validUntil ++ ' ' ::
          putUntil ad.preferredUntil)))) := by
  unfold formatAddr
  simp only [List.append_assoc, List.cons_append]

theorem parseAddr_format (room : l.addrs.length < NETSNAP_MAX_ADDRS)
    {ad : NetsnapAddr} (fits : ad.Fits) :
    parseAddr inet l (((inet.ntop ad.family ad.addr ++ '/' :: formatUnsigned ad.prefixLen.toNat) ++
      ' ' :: (putOptional inet ad.family ad.brd ++ ' ' :: (putUntil ad.validUntil ++ ' ' ::
        putUntil ad.preferredUntil))).dropWhile isSpace) =
      some { l with addrs := l.addrs ++ [ad] } := by
  rw [parseAddr, if_neg (by omega)]
  simp only [scanWord_dropWhile, scanWord_space, scanWord_end (isWord_putUntil fits.preferred),
    scanWord_then_space (isWord_addrPrefix inet ad.addr ad.prefixLen),
    scanWord_then_space (isWord_putOptional inet ad.brd),
    scanWord_then_space (isWord_putUntil fits.valid), getPrefix_format inet ad.addr fits.inWidth,
    getUntil_put fits.valid, getUntil_put fits.preferred, getOptional_put, Option.bind_eq_bind,
    Option.bind_some, Option.pure_def]

theorem parseLine_addr (fresh : ∀ other ∈ before, other.pci ≠ l.pci) (pci : IsWord 15 l.pci)
    (room : l.addrs.length < NETSNAP_MAX_ADDRS) {ad : NetsnapAddr} (fits : ad.Fits) :
    parseLine inet ⟨before ++ [l]⟩ (formatAddr inet l.pci ad) =
      some ⟨before ++ [{ l with addrs := l.addrs ++ [ad] }]⟩ := by
  have addr : IsWord 7 "addr".toList := by decide +kernel
  have notLink : "addr".toList ≠ "link".toList := by decide
  rw [formatAddr_eq, parseLine_word addr pci, if_neg notLink, linkByPci_last fresh]
  simp only [Option.bind_eq_bind, Option.bind_some, List.getElem?_concat_length, if_true,
    parseAddr_format room fits, Option.pure_def, set_last]

theorem formatRoute_eq (inet : Inet) (pci : List Char) (r : NetsnapRoute) :
    formatRoute inet pci r = "route".toList ++ ' ' :: (pci ++ ' ' ::
      ((inet.ntop r.family r.dst ++ '/' :: formatUnsigned r.dstLen.toNat) ++ ' ' ::
        (putOptional inet r.family r.gw ++ ' ' :: (formatUnsigned r.metric.toNat ++ ' ' ::
          (formatUnsigned r.protocol.toNat ++ ' ' :: formatUnsigned r.scope.toNat))))) := by
  unfold formatRoute
  simp only [List.append_assoc, List.cons_append]

theorem parseRoute_format (room : l.routes.length < NETSNAP_MAX_ROUTES) {r : NetsnapRoute}
    (fits : r.Fits) :
    parseRoute inet l (((inet.ntop r.family r.dst ++ '/' :: formatUnsigned r.dstLen.toNat) ++
      ' ' :: (putOptional inet r.family r.gw ++ ' ' :: (formatUnsigned r.metric.toNat ++ ' ' ::
        (formatUnsigned r.protocol.toNat ++ ' ' :: formatUnsigned r.scope.toNat)))).dropWhile
        isSpace) = some { l with routes := l.routes ++ [r] } := by
  have metricMax := r.metric.toNat_lt
  have protocolMax := r.protocol.toNat_lt
  have scopeMax := r.scope.toNat_lt
  have number {n : ℕ} {rest : List Char} (fits : n < 2 ^ 64) :
      scanUnsigned (formatUnsigned n ++ ' ' :: rest) = some (n, ' ' :: rest) :=
    scanUnsigned_format fits (stops_cons rfl)
  have last := scanUnsigned_format (show r.scope.toNat < 2 ^ 64 by omega)
    (stops_nil Char.isDigit)
  rw [List.append_nil] at last
  have small : ¬ (r.protocol.toNat % 2 ^ 32 > 255 ∨ r.scope.toNat % 2 ^ 32 > 255) := by omega
  rw [parseRoute, if_neg (by omega)]
  simp only [scanWord_dropWhile, scanWord_space, scanUnsigned_space,
    scanWord_then_space (isWord_addrPrefix inet r.dst r.dstLen),
    scanWord_then_space (isWord_putOptional inet r.gw), getPrefix_format inet r.dst fits,
    number (show r.metric.toNat < 2 ^ 64 by omega), number (show r.protocol.toNat < 2 ^ 64 by omega),
    last, small, if_false, getOptional_put, UInt8.ofNat_toNat, UInt32.ofNat_toNat,
    Option.bind_eq_bind, Option.bind_some, Option.pure_def]

theorem parseLine_route (fresh : ∀ other ∈ before, other.pci ≠ l.pci) (pci : IsWord 15 l.pci)
    (room : l.routes.length < NETSNAP_MAX_ROUTES) {r : NetsnapRoute} (fits : r.Fits) :
    parseLine inet ⟨before ++ [l]⟩ (formatRoute inet l.pci r) =
      some ⟨before ++ [{ l with routes := l.routes ++ [r] }]⟩ := by
  have route : IsWord 7 "route".toList := by decide +kernel
  have notLink : "route".toList ≠ "link".toList := by decide
  have notAddr : "route".toList ≠ "addr".toList := by decide
  rw [formatRoute_eq, parseLine_word route pci, if_neg notLink, linkByPci_last fresh]
  simp only [Option.bind_eq_bind, Option.bind_some, List.getElem?_concat_length, notAddr, if_false,
    if_true, parseRoute_format room fits, Option.pure_def, set_last]

def Clean (text : List Char) : Prop := ∀ c ∈ text, c ≠ '\n' ∧ c ≠ '\x00'

/-- A line the buffer of the parser holds whole. -/
structure IsLine (line : List Char) : Prop where
  found : line ≠ []
  short : line.length ≤ 255
  clean : Clean line

theorem IsLine.lineBuffer {line : List Char} (isLine : IsLine line) : lineBuffer line = line := by
  have short := isLine.short
  have small : line.length % 2 ^ 32 = line.length := by omega
  simp only [Kmorph.lineBuffer, small]
  rw [if_pos (by omega), List.take_length, List.take_of_length_le short]

theorem parseLines_line {line : List Char} {lines : List (List Char)} (isLine : IsLine line) :
    parseLines inet s (line :: lines) =
      (parseLine inet s line).bind fun s => parseLines inet s lines := by
  simp only [parseLines, isLine.lineBuffer, isLine.found, if_false]
  cases parseLine inet s line <;> rfl

theorem IsWord.clean {width : ℕ} {word : List Char} (isWord : IsWord width word) : Clean word := by
  intro c member
  obtain ⟨notSpace, notNul⟩ := isWord.plain c member
  refine ⟨?_, notNul⟩
  rintro rfl
  exact absurd notSpace (by decide)

theorem isWord_formatMac (m : Mac) : IsWord 17 (formatMac m) := by
  refine ⟨by simp [formatMac, formatByte], by simp [formatMac, formatByte], ?_⟩
  intro c member
  have digits (b : UInt8) (inByte : c ∈ formatByte b) : isSpace c = false ∧ c ≠ '\x00' :=
    (isWord_of_isXdigit (by simp [formatByte]) (Nat.le_refl _) (isXdigit_formatByte b)).plain c inByte
  simp only [formatMac, List.mem_append, List.mem_cons] at member
  rcases member with ((((inByte | rfl | inByte) | rfl | inByte) | rfl | inByte) | rfl | inByte) |
    rfl | inByte
  all_goals first | exact digits _ inByte | decide

theorem Clean.spaced {first rest : List Char} (firstClean : Clean first) (restClean : Clean rest) :
    Clean (first ++ ' ' :: rest) := by
  intro c member
  simp only [List.mem_append, List.mem_cons] at member
  rcases member with inFirst | rfl | inRest
  · exact firstClean c inFirst
  · decide
  · exact restClean c inRest

theorem isLine_formatLink (fits : l.Fits) : IsLine (formatLink l) := by
  have mtuMax := l.mtu.toNat_lt
  have link : IsWord 4 "link".toList := by decide +kernel
  have mac := isWord_formatMac l.mac
  have mtu := isWord_formatUnsigned (show l.mtu.toNat < 10 ^ (9 + 1) by omega)
  rw [formatLink_eq]
  refine ⟨by simp, ?_, link.clean.spaced (fits.pci.clean.spaced (fits.name.clean.spaced
    (mac.clean.spaced mtu.clean)))⟩
  have := link.short
  have := fits.pci.short
  have := fits.name.short
  have := mac.short
  have := mtu.short
  simp only [List.length_append, List.length_cons]
  omega

theorem isLine_formatAddr (pci : IsWord 15 l.pci) {ad : NetsnapAddr} (fits : ad.Fits) :
    IsLine (formatAddr inet l.pci ad) := by
  have addr : IsWord 4 "addr".toList := by decide +kernel
  have address := isWord_addrPrefix inet ad.addr ad.prefixLen
  have brd := isWord_putOptional inet ad.brd
  have valid := isWord_putUntil fits.valid
  have preferred := isWord_putUntil fits.preferred
  rw [formatAddr_eq]
  refine ⟨by simp, ?_, addr.clean.spaced (pci.clean.spaced (address.clean.spaced
    (brd.clean.spaced (valid.clean.spaced preferred.clean))))⟩
  have := addr.short
  have := pci.short
  have := address.short
  have := brd.short
  have := valid.short
  have := preferred.short
  simp only [List.length_append, List.length_cons] at *
  omega

theorem isLine_formatRoute (pci : IsWord 15 l.pci) (r : NetsnapRoute) :
    IsLine (formatRoute inet l.pci r) := by
  have metricMax := r.metric.toNat_lt
  have protocolMax := r.protocol.toNat_lt
  have scopeMax := r.scope.toNat_lt
  have route : IsWord 5 "route".toList := by decide +kernel
  have dst := isWord_addrPrefix inet r.dst r.dstLen
  have gw := isWord_putOptional inet r.gw
  have metric := isWord_formatUnsigned (show r.metric.toNat < 10 ^ (9 + 1) by omega)
  have protocol := isWord_formatUnsigned (show r.protocol.toNat < 10 ^ (2 + 1) by omega)
  have scope := isWord_formatUnsigned (show r.scope.toNat < 10 ^ (2 + 1) by omega)
  rw [formatRoute_eq]
  refine ⟨by simp, ?_, route.clean.spaced (pci.clean.spaced (dst.clean.spaced (gw.clean.spaced
    (metric.clean.spaced (protocol.clean.spaced scope.clean)))))⟩
  have := route.short
  have := pci.short
  have := dst.short
  have := gw.short
  have := metric.short
  have := protocol.short
  have := scope.short
  simp only [List.length_append, List.length_cons] at *
  omega

theorem parseLines_addrs (fresh : ∀ other ∈ before, other.pci ≠ l.pci) (pci : IsWord 15 l.pci)
    {addrs : List NetsnapAddr} (few : l.addrs.length + addrs.length ≤ NETSNAP_MAX_ADDRS)
    (fits : ∀ ad ∈ addrs, ad.Fits) (lines : List (List Char)) :
    parseLines inet ⟨before ++ [l]⟩ (addrs.map (formatAddr inet l.pci) ++ lines) =
      parseLines inet ⟨before ++ [{ l with addrs := l.addrs ++ addrs }]⟩ lines := by
  induction addrs generalizing l with
  | nil => simp
  | cons ad addrs ih =>
      rw [List.length_cons] at few
      have adFits := fits ad (by simp)
      have next := ih (l := { l with addrs := l.addrs ++ [ad] }) fresh pci
        (by simp only [List.length_append, List.length_singleton]; omega)
        (fun other member => fits other (by simp [member]))
      rw [List.map_cons, List.cons_append, parseLines_line (isLine_formatAddr pci adFits),
        parseLine_addr fresh pci (by omega) adFits, Option.bind_some, next]
      simp only [List.append_assoc, List.singleton_append]

theorem parseLines_routes (fresh : ∀ other ∈ before, other.pci ≠ l.pci) (pci : IsWord 15 l.pci)
    {routes : List NetsnapRoute} (few : l.routes.length + routes.length ≤ NETSNAP_MAX_ROUTES)
    (fits : ∀ r ∈ routes, r.Fits) (lines : List (List Char)) :
    parseLines inet ⟨before ++ [l]⟩ (routes.map (formatRoute inet l.pci) ++ lines) =
      parseLines inet ⟨before ++ [{ l with routes := l.routes ++ routes }]⟩ lines := by
  induction routes generalizing l with
  | nil => simp
  | cons r routes ih =>
      rw [List.length_cons] at few
      have next := ih (l := { l with routes := l.routes ++ [r] }) fresh pci
        (by simp only [List.length_append, List.length_singleton]; omega)
        (fun other member => fits other (by simp [member]))
      rw [List.map_cons, List.cons_append, parseLines_line (isLine_formatRoute pci r),
        parseLine_route fresh pci (by omega) (fits r (by simp)), Option.bind_some, next]
      simp only [List.append_assoc, List.singleton_append]

theorem parseLines_link (fits : l.Fits) (room : before.length < NETSNAP_MAX_LINKS)
    (lines : List (List Char)) :
    parseLines inet ⟨before⟩ (linkLines inet l ++ lines) =
      if l.pci ∈ before.map NetsnapLink.pci then none
      else parseLines inet ⟨before ++ [l.cleared]⟩ lines := by
  rw [linkLines, List.cons_append, List.cons_append, parseLines_line (isLine_formatLink fits),
    parseLine_link fits]
  by_cases duplicate : l.pci ∈ before.map NetsnapLink.pci
  · rw [if_pos (Or.inr (linkByPci_isSome.mpr duplicate)), if_pos duplicate]
    rfl
  · have fresh : ∀ other ∈ before, other.pci ≠ l.pci :=
      fun other member same => duplicate (same ▸ List.mem_map_of_mem member)
    have accepted : ¬ (before.length = NETSNAP_MAX_LINKS ∨ (linkByPci ⟨before⟩ l.pci).isSome) := by
      rw [linkByPci_isSome, not_or]
      exact ⟨by omega, duplicate⟩
    have addrs := @parseLines_addrs inet { l with ifindex := 0, addrs := [], routes := [] } before
      fresh fits.pci _
      (by simpa using fits.fewAddrs) fits.addrs (l.routes.map (formatRoute inet l.pci) ++ lines)
    have routes := @parseLines_routes inet { l with ifindex := 0, routes := [] } before fresh fits.pci _
      (by simpa using fits.fewRoutes) fits.routes lines
    simp only [List.nil_append] at addrs routes
    rw [if_neg accepted, if_neg duplicate, Option.bind_some, List.append_assoc, addrs, routes]
    rfl

theorem parseLines_links {links : List NetsnapLink}
    (distinct : (before.map NetsnapLink.pci).Nodup) (fits : ∀ l ∈ links, l.Fits)
    (few : before.length + links.length ≤ NETSNAP_MAX_LINKS) :
    parseLines inet ⟨before⟩ (links.flatMap (linkLines inet)) =
      if ((before ++ links).map NetsnapLink.pci).Nodup then
        some ⟨before ++ links.map NetsnapLink.cleared⟩
      else none := by
  induction links generalizing before with
  | nil => simp [parseLines, distinct]
  | cons l links ih =>
      rw [List.length_cons] at few
      rw [List.flatMap_cons, parseLines_link (fits l (by simp)) (by omega)]
      split
      · rename_i duplicate
        rw [if_neg]
        simp only [List.map_append, List.map_cons, List.nodup_append, List.mem_cons]
        intro all
        exact all.2.2 _ duplicate _ (Or.inl rfl) rfl
      · rename_i new
        have extended : ((before ++ [l.cleared]).map NetsnapLink.pci).Nodup := by
          rw [List.map_append, List.nodup_append]
          refine ⟨distinct, by simp, ?_⟩
          rintro pci known other isLast rfl
          rw [List.map_singleton, List.mem_singleton] at isLast
          exact new (isLast ▸ known)
        rw [ih extended (fun other member => fits other (by simp [member]))
          (by simp only [List.length_append, List.length_singleton]; omega)]
        simp [NetsnapLink.cleared]

theorem isLine_linkLines (fits : l.Fits) : ∀ line ∈ linkLines inet l, IsLine line := by
  intro line member
  simp only [linkLines, List.cons_append, List.mem_cons, List.mem_append, List.mem_map] at member
  rcases member with rfl | ⟨ad, isAddr, rfl⟩ | ⟨r, -, rfl⟩
  · exact isLine_formatLink fits
  · exact isLine_formatAddr fits.pci (fits.addrs ad isAddr)
  · exact isLine_formatRoute fits.pci r

end Lines

theorem textLines_line {line rest : List Char} (noNewline : '\n' ∉ line) :
    textLines (line ++ '\n' :: rest) = line :: textLines rest := by
  induction line with
  | nil => rfl
  | cons c line ih =>
      simp only [List.mem_cons, not_or] at noNewline
      rw [List.cons_append, textLines, if_neg (Ne.symm noNewline.1), ih noNewline.2]

theorem textLines_lines {lines : List (List Char)} (noNewline : ∀ line ∈ lines, '\n' ∉ line) :
    textLines (lines.flatMap fun line => line ++ ['\n']) = lines := by
  induction lines with
  | nil => rfl
  | cons line lines ih =>
      rw [List.flatMap_cons, List.append_assoc, List.singleton_append,
        textLines_line (noNewline line (by simp)), ih fun other member => noNewline other (by simp [member])]

theorem foldlM_appendLine {len : ℕ} {lines : List (List Char)} {text out : List Char}
    (formatted : lines.foldlM (appendLine len) text = .ok out) :
    out = text ++ lines.flatMap fun line => line ++ ['\n'] := by
  induction lines generalizing text with
  | nil =>
      simp only [List.foldlM_nil] at formatted
      cases formatted
      simp
  | cons line lines ih =>
      simp only [List.foldlM_cons, appendLine] at formatted
      split at formatted
      · simp [bind, Except.bind] at formatted
      · rw [ih formatted]
        simp

/-- What a well formed identity is read back as: itself, unless two of its links share a function. -/
theorem netsnapParse_format {inet : Inet} {s : Netsnap} {len : ℕ} {text : List Char}
    (few : s.links.length ≤ NETSNAP_MAX_LINKS) (fits : ∀ l ∈ s.links, l.Fits)
    (formatted : netsnapFormat inet s len = .ok text) :
    netsnapParse inet text =
      if (s.links.map NetsnapLink.pci).Nodup then .ok ⟨s.links.map NetsnapLink.cleared⟩
      else .error (-EINVAL) := by
  have each : ∀ line ∈ s.links.flatMap (linkLines inet), IsLine line := by
    intro line member
    obtain ⟨l, isLink, inLines⟩ := List.mem_flatMap.mp member
    exact isLine_linkLines (fits l isLink) line inLines
  have whole := foldlM_appendLine formatted
  rw [List.nil_append] at whole
  have string : cString text = text := by
    refine cString_of_plain fun member => ?_
    rw [whole] at member
    obtain ⟨line, isLine, inLine⟩ := List.mem_flatMap.mp member
    rcases List.mem_append.mp inLine with inLine | newline
    · exact absurd rfl ((each line isLine).clean _ inLine).2
    · simp at newline
  have lines := textLines_lines fun line member newline => ((each line member).clean _ newline).1 rfl
  have parsed := @parseLines_links inet [] _ List.nodup_nil fits (by simpa using few)
  rw [netsnapParse, string, whole, lines, parsed]
  simp only [List.nil_append]
  by_cases distinct : (s.links.map NetsnapLink.pci).Nodup
  · rw [if_pos distinct, if_pos distinct]
  · rw [if_neg distinct, if_neg distinct]

/-- What the parser accepts. -/
structure Netsnap.Valid (s : Netsnap) : Prop where
  few : s.links.length ≤ NETSNAP_MAX_LINKS
  distinct : (s.links.map NetsnapLink.pci).Nodup
  fits : ∀ l ∈ s.links, l.Fits
  cleared : ∀ l ∈ s.links, l.ifindex = 0

theorem strtoll_lt (text : List Char) : (strtoll text).1 < 2 ^ 63 := by
  simp only [strtoll, apply_ite Prod.fst]
  split_ifs
  all_goals omega

theorem getUntil_isTime {text : List Char} {time : Int} (read : getUntil text = some time) :
    IsTime time := by
  simp only [getUntil] at read
  split at read
  · cases read
    exact ⟨by decide, by decide⟩
  · split at read
    · simp at read
    · rename_i accepted
      cases read
      exact ⟨by omega, strtoll_lt text⟩

theorem getPrefix_inWidth {inet : Inet} {text : List Char} {family : Family} {addr : IpAddr family}
    {n : UInt8} (read : getPrefix inet text = some ⟨family, addr, n⟩) :
    n.toNat ≤ addrLen family * 8 := by
  simp only [getPrefix] at read
  split at read
  · split at read
    · simp at read
    · split at read
      · simp at read
      · rename_i accepted
        cases read
        rw [not_or, Nat.not_lt] at accepted
        rw [UInt8.toNat_ofNat']
        omega
  · simp at read

theorem parseLink_valid {s after : Netsnap} {pci rest : List Char} (valid : s.Valid)
    (word : IsWord 31 pci) (noNul : '\x00' ∉ rest) (parsed : parseLink s pci rest = some after) :
    after.Valid := by
  rw [parseLink] at parsed
  split at parsed
  · simp at parsed
  · rename_i accepted
    rw [linkByPci_isSome, not_or, not_or, Nat.not_le] at accepted
    obtain ⟨room, fresh, short⟩ := accepted
    simp only [Option.bind_eq_bind, Option.bind_eq_some_iff, Prod.exists, Option.pure_def,
      Option.some.injEq] at parsed
    obtain ⟨name, afterName, scanned, mac, -, -, mtu, -, -, rfl⟩ := parsed
    have few := valid.few
    have nameWord := (scanWord_isWord noNul scanned).1
    refine ⟨?_, ?_, ?_, ?_⟩
    · simp only [List.length_append, List.length_singleton]
      omega
    · rw [List.map_append, List.nodup_append]
      refine ⟨valid.distinct, by simp, ?_⟩
      rintro known isKnown other isNew rfl
      simp only [List.map_singleton, List.mem_singleton] at isNew
      exact fresh (isNew ▸ isKnown)
    · simp only [List.forall_mem_append, List.forall_mem_singleton]
      exact ⟨valid.fits, ⟨word.found, Nat.le_of_lt_succ short, word.plain⟩, nameWord, by simp, by simp,
        by simp, by simp⟩
    · simp only [List.forall_mem_append, List.forall_mem_singleton, and_true]
      exact valid.cleared

theorem parseAddr_fits {inet : Inet} {l after : NetsnapLink} {rest : List Char} (fits : l.Fits)
    (parsed : parseAddr inet l rest = some after) :
    after.Fits ∧ after.pci = l.pci ∧ after.ifindex = l.ifindex := by
  rw [parseAddr] at parsed
  split at parsed
  · simp at parsed
  · rename_i room
    simp only [Option.bind_eq_bind, Option.bind_eq_some_iff, Prod.exists, Option.pure_def,
      Option.some.injEq] at parsed
    obtain ⟨addrText, r1, -, brdText, r2, -, valid, r3, -, pref, r4, -, ⟨family, addr, n⟩, address,
      validUntil, readValid, preferredUntil, readPreferred, brd, -, rfl⟩ := parsed
    have few := fits.fewAddrs
    refine ⟨⟨fits.pci, fits.name, ?_, fits.fewRoutes, ?_, fits.routes⟩, rfl, rfl⟩
    · simp only [List.length_append, List.length_singleton]
      omega
    · simp only [List.forall_mem_append, List.forall_mem_singleton]
      exact ⟨fits.addrs, getPrefix_inWidth address, getUntil_isTime readValid,
        getUntil_isTime readPreferred⟩

theorem parseRoute_fits {inet : Inet} {l after : NetsnapLink} {rest : List Char} (fits : l.Fits)
    (parsed : parseRoute inet l rest = some after) :
    after.Fits ∧ after.pci = l.pci ∧ after.ifindex = l.ifindex := by
  rw [parseRoute] at parsed
  split at parsed
  · simp at parsed
  · rename_i room
    simp only [Option.bind_eq_bind, Option.bind_eq_some_iff, Prod.exists] at parsed
    obtain ⟨dstText, r1, -, gwText, r2, -, metric, r3, -, protocol, r4, -, scope, r5, -, parsed⟩ :=
      parsed
    split at parsed
    · simp at parsed
    · simp only [Option.bind_eq_some_iff, Option.pure_def, Option.some.injEq] at parsed
      obtain ⟨⟨family, dst, n⟩, address, gw, -, rfl⟩ := parsed
      have few := fits.fewRoutes
      refine ⟨⟨fits.pci, fits.name, fits.fewAddrs, ?_, fits.addrs, ?_⟩, rfl, rfl⟩
      · simp only [List.length_append, List.length_singleton]
        omega
      · simp only [List.forall_mem_append, List.forall_mem_singleton]
        exact ⟨fits.routes, getPrefix_inWidth address⟩

theorem map_set_of_eq {α β : Type} {f : α → β} {items : List α} {i : ℕ} {old new : α}
    (found : items[i]? = some old) (same : f new = f old) : (items.set i new).map f = items.map f := by
  obtain ⟨inside, isItem⟩ := List.getElem?_eq_some_iff.mp found
  have bound : i < (items.map f).length := by rwa [List.length_map]
  have kept : f new = (items.map f)[i] := by
    rw [List.getElem_map, isItem, same]
  rw [List.map_set, kept, List.set_getElem_self]

theorem Netsnap.Valid.set {s : Netsnap} {i : ℕ} {l new : NetsnapLink} (valid : s.Valid)
    (found : s.links[i]? = some l) (fits : new.Fits) (samePci : new.pci = l.pci)
    (sameIndex : new.ifindex = l.ifindex) : (⟨s.links.set i new⟩ : Netsnap).Valid := by
  have member : l ∈ s.links := List.mem_of_getElem? found
  have pcis := @map_set_of_eq _ _ NetsnapLink.pci _ _ _ _ found samePci
  refine ⟨by rw [List.length_set]; exact valid.few, pcis ▸ valid.distinct, ?_, ?_⟩
  · intro other isOther
    rcases List.mem_or_eq_of_mem_set isOther with old | rfl
    · exact valid.fits other old
    · exact fits
  · intro other isOther
    rcases List.mem_or_eq_of_mem_set isOther with old | rfl
    · exact valid.cleared other old
    · rw [sameIndex, valid.cleared l member]

theorem parseLine_valid {inet : Inet} {s after : Netsnap} {line : List Char} (valid : s.Valid)
    (noNul : '\x00' ∉ line) (parsed : parseLine inet s line = some after) : after.Valid := by
  simp only [parseLine, Option.bind_eq_bind, Option.bind_eq_some_iff, Prod.exists] at parsed
  obtain ⟨kind, afterKind, kindScanned, pci, afterPci, pciScanned, parsed⟩ := parsed
  obtain ⟨-, noNulKind⟩ := scanWord_isWord noNul kindScanned
  obtain ⟨word, noNulPci⟩ := scanWord_isWord noNulKind pciScanned
  split at parsed
  · refine parseLink_valid valid word ?_ parsed
    exact fun member => noNulPci ((List.dropWhile_suffix _).mem member)
  · simp only [Option.bind_eq_some_iff, Option.pure_def] at parsed
    obtain ⟨i, -, l, found, parsed⟩ := parsed
    have fits := valid.fits l (List.mem_of_getElem? found)
    split at parsed
    · simp only [Option.bind_eq_some_iff, Option.some.injEq] at parsed
      obtain ⟨new, isAddr, rfl⟩ := parsed
      obtain ⟨newFits, samePci, sameIndex⟩ := parseAddr_fits fits isAddr
      exact valid.set found newFits samePci sameIndex
    · split at parsed
      · simp only [Option.bind_eq_some_iff, Option.some.injEq] at parsed
        obtain ⟨new, isRoute, rfl⟩ := parsed
        obtain ⟨newFits, samePci, sameIndex⟩ := parseRoute_fits fits isRoute
        exact valid.set found newFits samePci sameIndex
      · simp at parsed

theorem lineBuffer_sublist (line : List Char) : (lineBuffer line).Sublist line := by
  simp only [lineBuffer]
  split
  · exact (List.take_sublist ..).trans (List.take_sublist ..)
  · exact List.take_sublist ..

theorem mem_of_mem_textLines {text line : List Char} (isLine : line ∈ textLines text) {c : Char}
    (member : c ∈ line) : c ∈ text := by
  induction text generalizing line with
  | nil => simp [textLines] at isLine
  | cons first rest ih =>
      simp only [textLines] at isLine
      split at isLine
      · rcases List.mem_cons.mp isLine with rfl | later
        · simp at member
        · exact List.mem_cons_of_mem _ (ih later member)
      · split at isLine
        · rw [List.mem_singleton.mp isLine] at member
          simp only [List.mem_singleton] at member
          simp [member]
        · rename_i head lines split
          rw [split] at ih
          rcases List.mem_cons.mp isLine with rfl | later
          · rcases List.mem_cons.mp member with rfl | inHead
            · simp
            · exact List.mem_cons_of_mem _ (ih (by simp) inHead)
          · exact List.mem_cons_of_mem _ (ih (by simp [later]) member)

theorem parseLines_valid {inet : Inet} {s after : Netsnap} {lines : List (List Char)}
    (valid : s.Valid) (noNul : ∀ line ∈ lines, '\x00' ∉ line)
    (parsed : parseLines inet s lines = some after) : after.Valid := by
  induction lines generalizing s with
  | nil =>
      cases parsed
      exact valid
  | cons line lines ih =>
      have noNulRest : ∀ other ∈ lines, '\x00' ∉ other := fun other member => noNul other (by simp [member])
      have noNulLine : '\x00' ∉ lineBuffer line :=
        fun member => noNul line (by simp) ((lineBuffer_sublist line).mem member)
      simp only [parseLines] at parsed
      split at parsed
      · exact ih valid noNulRest parsed
      · split at parsed
        · simp at parsed
        · rename_i next lineParsed
          exact ih (parseLine_valid valid noNulLine lineParsed) noNulRest parsed

theorem netsnapParse_valid {inet : Inet} {text : List Char} {s : Netsnap}
    (parsed : netsnapParse inet text = .ok s) : s.Valid := by
  simp only [netsnapParse] at parsed
  split at parsed
  · simp at parsed
  · rename_i result lines
    cases parsed
    refine parseLines_valid ⟨by simp, by simp, by simp, by simp⟩ ?_ lines
    intro line isLine nul
    have inString : '\x00' ∈ cString text := mem_of_mem_textLines isLine nul
    simpa using List.all_eq_true.mp List.all_takeWhile _ inString

/-- What is parsed is within its bounds and is read back from its text. -/
theorem netsnapParse_roundTrip (inet : Inet) {text : List Char} {s : Netsnap}
    (parsed : netsnapParse inet text = .ok s) :
    (s.links.length ≤ 8 ∧ (s.links.map NetsnapLink.pci).Nodup ∧
      ∀ l ∈ s.links, l.addrs.length ≤ 16 ∧ l.routes.length ≤ 32 ∧
        (∀ ad ∈ l.addrs, ad.prefixLen.toNat ≤ addrLen ad.family * 8) ∧
        ∀ r ∈ l.routes, r.dstLen.toNat ≤ addrLen r.family * 8) ∧
      ∀ len out, netsnapFormat inet s len = .ok out → netsnapParse inet out = .ok s := by
  have valid := netsnapParse_valid parsed
  refine ⟨⟨valid.few, valid.distinct, ?_⟩, ?_⟩
  · intro l member
    have fits := valid.fits l member
    exact ⟨fits.fewAddrs, fits.fewRoutes, fun ad isAddr => (fits.addrs ad isAddr).inWidth, fits.routes⟩
  · intro len out formatted
    have same : s.links.map NetsnapLink.cleared = s.links := by
      have each : ∀ l ∈ s.links, l.cleared = id l := by
        intro l member
        rw [NetsnapLink.cleared, ← valid.cleared l member]
        rfl
      rw [List.map_congr_left each, List.map_id]
    rw [netsnapParse_format valid.few valid.fits formatted, if_pos valid.distinct, same]

/-! The text forms of addresses, for the samples: four numbers with dots, and eight groups of hexadecimal
digits with colons, of which none is left out. -/

section Addresses

variable {parts : List (List Char)} {sep : Char} {width : ℕ}

theorem mem_intercalate {c : Char} (member : c ∈ [sep].intercalate parts) :
    c = sep ∨ ∃ part ∈ parts, c ∈ part := by
  induction parts with
  | nil => cases member
  | cons part parts ih =>
      cases parts with
      | nil => exact .inr ⟨part, List.mem_cons_self, by rwa [List.intercalate_singleton] at member⟩
      | cons next rest =>
          rw [List.intercalate_cons_cons, List.append_assoc, List.mem_append, List.singleton_append, List.mem_cons]
            at member
          rcases member with first | same | later
          · exact .inr ⟨part, List.mem_cons_self, first⟩
          · exact .inl same
          · exact (ih later).imp_right fun ⟨other, inside, there⟩ => ⟨other, List.mem_cons_of_mem _ inside, there⟩

theorem length_intercalate (short : ∀ part ∈ parts, part.length ≤ width) :
    ([sep].intercalate parts).length ≤ parts.length * (width + 1) - 1 := by
  induction parts with
  | nil => exact Nat.zero_le _
  | cons part parts ih =>
      obtain ⟨first, others⟩ := List.forall_mem_cons.mp short
      cases parts with
      | nil =>
          rw [List.intercalate_singleton, List.length_singleton]
          omega
      | cons next rest =>
          have := ih others
          have : width + 1 ≤ (next :: rest).length * (width + 1) := Nat.le_mul_of_pos_left _ (by simp)
          rw [List.intercalate_cons_cons, List.length_append, List.length_append, List.length_singleton,
            List.length_cons, Nat.succ_mul]
          omega

def octet (part : List Char) : Option UInt8 :=
  if decimal part < 256 ∧ formatUnsigned (decimal part) = part then some (.ofNat (decimal part)) else none

theorem mapM_octet (bytes : List UInt8) : (bytes.map fun b => formatUnsigned b.toNat).mapM octet = some bytes := by
  induction bytes with
  | nil => rfl
  | cons b bytes ih =>
      have read : octet (formatUnsigned b.toNat) = some b := by
        rw [octet, decimal_formatUnsigned, if_pos ⟨b.toNat_lt, rfl⟩, UInt8.ofNat_toNat]
      rw [List.map_cons, List.mapM_cons, read, ih]
      rfl

def hextets : List UInt8 → List (List Char)
  | high :: low :: rest => (formatByte high ++ formatByte low) :: hextets rest
  | _ => []

def unhex : List Char → List UInt8
  | high :: low :: rest => .ofNat (16 * hexDigitValue high + hexDigitValue low) :: unhex rest
  | _ => []

theorem unhex_formatByte (b : UInt8) (rest : List Char) : unhex (formatByte b ++ rest) = b :: unhex rest := by
  have := b.toNat_lt
  have value : 16 * (b.toNat / 16) + b.toNat % 16 = b.toNat := Nat.div_add_mod ..
  rw [formatByte, List.cons_append, List.cons_append, List.nil_append, unhex, hexDigitValue_digitChar (by omega),
    hexDigitValue_digitChar (by omega), value, UInt8.ofNat_toNat]

theorem unhex_hextets (bytes : List UInt8) (even : bytes.length % 2 = 0) : (hextets bytes).flatMap unhex = bytes := by
  induction bytes using hextets.induct with
  | case1 high low rest ih =>
      have pair : unhex (formatByte high ++ formatByte low) = [high, low] := by
        rw [← List.append_nil (formatByte low), unhex_formatByte, unhex_formatByte]
        rfl
      rw [hextets, List.flatMap_cons, pair, ih (by simp only [List.length_cons] at even; omega)]
      rfl
  | case2 bytes short =>
      cases bytes with
      | nil => rfl
      | cons b rest =>
          cases rest with
          | nil => cases even
          | cons next rest => exact absurd rfl (short b next rest)

theorem length_hextets (bytes : List UInt8) : (hextets bytes).length = bytes.length / 2 := by
  induction bytes using hextets.induct with
  | case1 high low rest ih =>
      simp only [hextets, List.length_cons, ih]
      omega
  | case2 bytes short =>
      have small : bytes.length < 2 := by
        cases bytes with
        | nil => decide
        | cons b rest =>
            cases rest with
            | nil => exact Nat.one_lt_two
            | cons next rest => exact absurd rfl (short b next rest)
      have none : hextets bytes = [] := by
        rw [hextets]
        exact short
      rw [none, Nat.div_eq_of_lt small]
      rfl

theorem mem_hextets {bytes : List UInt8} {part : List Char} (member : part ∈ hextets bytes) :
    part.length = 4 ∧ ∀ c ∈ part, isXdigit c = true := by
  induction bytes using hextets.induct with
  | case1 high low rest ih =>
      rcases List.mem_cons.mp member with rfl | later
      · refine ⟨rfl, fun c inside => ?_⟩
        rcases List.mem_append.mp inside with first | second
        · exact isXdigit_formatByte high c first
        · exact isXdigit_formatByte low c second
      · exact ih later
  | case2 bytes short =>
      rw [hextets] at member
      · cases member
      · exact short

def addressSeparator : Family → Char
  | .inet => '.'
  | .inet6 => ':'

def addressParts : (family : Family) → IpAddr family → List (List Char)
  | .inet, addr => addr.toList.map fun b => formatUnsigned b.toNat
  | .inet6, addr => hextets addr.toList

section Text

variable {family : Family} (addr : IpAddr family)

theorem mem_addressParts {part : List Char} (member : part ∈ addressParts family addr) :
    part.length ≤ 4 ∧ ∀ c ∈ part, isXdigit c = true := by
  cases family with
  | inet =>
      obtain ⟨b, -, rfl⟩ := List.mem_map.mp member
      have := b.toNat_lt
      have digits := @length_formatUnsigned b.toNat 2 (by omega)
      exact ⟨by omega, fun c inside => isXdigit_of_isDigit (isDigit_formatUnsigned _ c inside)⟩
  | inet6 =>
      obtain ⟨length, digits⟩ := mem_hextets member
      exact ⟨length.le, digits⟩

theorem length_addressParts : 2 ≤ (addressParts family addr).length ∧ (addressParts family addr).length ≤ 8 := by
  cases family with
  | inet =>
      rw [addressParts, List.length_map, Vector.length_toList]
      decide
  | inet6 =>
      rw [addressParts, length_hextets, Vector.length_toList]
      decide

def addressText : List Char := [addressSeparator family].intercalate (addressParts family addr)

theorem mem_addressText {c : Char} (member : c ∈ addressText addr) : c = addressSeparator family ∨ isXdigit c = true := by
  rcases mem_intercalate member with same | ⟨part, inside, there⟩
  · exact .inl same
  · exact .inr ((mem_addressParts addr inside).2 c there)

theorem notMem_addressText {c : Char} (noDigit : isXdigit c = false) (other : c ≠ addressSeparator family) :
    c ∉ addressText addr := by
  intro member
  rcases mem_addressText addr member with same | digit
  · exact other same
  · rw [digit] at noDigit
    cases noDigit

theorem separator_mem : addressSeparator family ∈ addressText addr := by
  have two := (length_addressParts addr).1
  rw [addressText]
  cases first : addressParts family addr with
  | nil =>
      rw [first] at two
      cases two
  | cons part parts =>
      cases parts with
      | nil => simp [first] at two
      | cons next rest =>
          rw [List.intercalate_cons_cons]
          simp

theorem splitOn_addressText : (addressText addr).splitOn (addressSeparator family) = addressParts family addr := by
  refine List.splitOn_intercalate _ (fun part inside member => ?_) ?_
  · have digit := (mem_addressParts addr inside).2 _ member
    cases family <;> cases digit
  · intro none
    have two := (length_addressParts addr).1
    rw [none] at two
    cases two

end Text

/-- The texts as they stand in a snapshot. -/
def textInet : Inet where
  ntop _ addr := addressText addr
  pton family text :=
    let parts := text.splitOn (addressSeparator family)
    let bytes := match family with
      | .inet => (parts.mapM octet).getD []
      | .inet6 => parts.flatMap unhex
    if count : bytes.length = addrLen family then some ⟨bytes.toArray, by simpa using count⟩ else none
  pton_ntop family addr := by
    rw [splitOn_addressText]
    cases family with
    | inet =>
        simp only [addressParts, mapM_octet, Option.getD_some]
        simp [Vector.toList]
    | inet6 =>
        have even : addr.toList.length % 2 = 0 := by rw [Vector.length_toList]; decide
        simp only [addressParts, unhex_hextets addr.toList even]
        simp [Vector.toList]
  isWord family addr := by
    have short : (addressText addr).length ≤ _ := length_intercalate fun part inside => (mem_addressParts addr inside).1
    have few := (length_addressParts addr).2
    refine ⟨List.ne_nil_of_mem (separator_mem addr), ?_, fun c member => ?_⟩
    · rw [INET6_ADDRSTRLEN]
      omega
    · rcases mem_addressText addr member with rfl | digit
      · cases family <;> decide
      · exact ⟨(isXdigit_plain digit).1, fun nul => by rw [nul] at digit; cases digit⟩
  noSlash family addr := notMem_addressText addr rfl (by cases family <;> decide)
  colon family addr := by
    cases family with
    | inet => exact iff_of_false (notMem_addressText addr rfl (by decide)) (by decide)
    | inet6 => exact iff_of_true (separator_mem addr) rfl
  notDash family addr := by
    intro dash
    refine notMem_addressText addr (show isXdigit '-' = false from rfl) (by cases family <;> decide) ?_
    rw [dash]
    decide

end Addresses

def sampleText : List Char :=
  ("link 0000:01:00.0 eth0 52:54:0:12:34:156 1500\n\n" ++
    " route 0000:01:00.0\t0.0.0.0/ 10.0.0.1 100 16 0 #").toList

def sampleSnap : Netsnap := ⟨[
  { pci := "0000:01:00.0".toList
    name := "eth0".toList
    mac := ⟨0x52, 0x54, 0x00, 0x12, 0x34, 0x56⟩
    mtu := 1500
    ifindex := 0
    addrs := []
    routes := [⟨.inet, 0, 16, 0, #v[0, 0, 0, 0], some #v[10, 0, 0, 1], 100⟩] }]⟩

theorem netsnapParse_roundTrip_sample :
    netsnapParse textInet sampleText = .ok sampleSnap ∧
      ∃ out, netsnapFormat textInet sampleSnap 128 = .ok out ∧
        netsnapParse textInet out = .ok sampleSnap := by
  have parsed : netsnapParse textInet sampleText = .ok sampleSnap := by decide +kernel
  have fits : (netsnapFormat textInet sampleSnap 128).toOption.isSome := by decide +kernel
  refine ⟨parsed, ?_⟩
  cases formatted : netsnapFormat textInet sampleSnap 128 with
  | error ret => simp [formatted, Except.toOption] at fits
  | ok out => exact ⟨out, rfl, (netsnapParse_roundTrip textInet parsed).2 128 out formatted⟩

end Kmorph
