import Kmorph.Scanning

/-!
The network identity and its text form, `netsnap_format` and `netsnap_parse` of
`lib/netsnap.c`: one line per link, address and route.
-/

namespace Kmorph

inductive Family
  | inet
  | inet6
deriving Repr, DecidableEq

def addrLen : Family → ℕ
  | .inet => 4
  | .inet6 => 16

abbrev IpAddr (family : Family) := Vector UInt8 (addrLen family)

def INET6_ADDRSTRLEN : ℕ := 46

/-- `inet_ntop` and `inet_pton`. -/
structure Inet where
  ntop : (family : Family) → IpAddr family → List Char
  pton : (family : Family) → List Char → Option (IpAddr family)
  pton_ntop : ∀ family addr, pton family (ntop family addr) = some addr
  isWord : ∀ family addr, IsWord (INET6_ADDRSTRLEN - 1) (ntop family addr)
  noSlash : ∀ family addr, '/' ∉ ntop family addr
  colon : ∀ family addr, ':' ∈ ntop family addr ↔ family = .inet6
  notDash : ∀ family addr, ntop family addr ≠ "-".toList

def NETSNAP_MAX_LINKS : ℕ := 8
def NETSNAP_MAX_ADDRS : ℕ := 16
def NETSNAP_MAX_ROUTES : ℕ := 32
def NETSNAP_TEXT_MAX : ℕ := 16384

/-- An address; `brd` is there if `has_brd`, and lifetimes of 0 last forever. -/
structure NetsnapAddr where
  family : Family
  prefixLen : UInt8
  addr : IpAddr family
  brd : Option (IpAddr family)
  validUntil : Int
  preferredUntil : Int
deriving DecidableEq

structure NetsnapRoute where
  family : Family
  dstLen : UInt8
  protocol : UInt8
  scope : UInt8
  dst : IpAddr family
  gw : Option (IpAddr family)
  metric : UInt32
deriving DecidableEq

structure Mac where
  m0 : UInt8
  m1 : UInt8
  m2 : UInt8
  m3 : UInt8
  m4 : UInt8
  m5 : UInt8
deriving Repr, DecidableEq

structure NetsnapLink where
  pci : List Char
  name : List Char
  mac : Mac
  mtu : UInt32
  ifindex : Int
  addrs : List NetsnapAddr
  routes : List NetsnapRoute
deriving DecidableEq

structure Netsnap where
  links : List NetsnapLink
deriving DecidableEq

def getIp (inet : Inet) (text : List Char) : Option ((family : Family) × IpAddr family) :=
  let family := if ':' ∈ text then .inet6 else .inet
  (inet.pton family text).map fun addr => ⟨family, addr⟩

def getPrefix (inet : Inet) (text : List Char) :
    Option ((family : Family) × IpAddr family × UInt8) :=
  if '/' ∈ text then
    let n := strtoul (text.dropWhile (· ≠ '/')).tail
    match getIp inet (text.takeWhile (· ≠ '/')) with
    | none => none
    | some ⟨family, addr⟩ =>
        if n.2 ≠ [] ∨ n.1 > addrLen family * 8 then none else some ⟨family, addr, UInt8.ofNat n.1⟩
  else none

def putUntil (time : Int) : List Char :=
  if time = 0 then "forever".toList else formatSigned time

def getUntil (text : List Char) : Option Int :=
  if text = "forever".toList then some 0
  else
    let n := strtoll text
    if n.2 ≠ [] ∨ n.1 ≤ 0 then none else some n.1

/-- A broadcast address or a gateway, `-` for none; of the family of the address it goes with. -/
def getOptional (inet : Inet) (family : Family) (text : List Char) :
    Option (Option (IpAddr family)) :=
  if text = "-".toList then some none
  else
    match getIp inet text with
    | none => none
    | some ⟨fam, addr⟩ => if same : fam = family then some (some (same ▸ addr)) else none

def putOptional (inet : Inet) (family : Family) (addr : Option (IpAddr family)) : List Char :=
  addr.elim "-".toList (inet.ntop family)

def formatMac (m : Mac) : List Char :=
  formatByte m.m0 ++ ':' :: formatByte m.m1 ++ ':' :: formatByte m.m2 ++ ':' :: formatByte m.m3 ++
    ':' :: formatByte m.m4 ++ ':' :: formatByte m.m5

def formatLink (l : NetsnapLink) : List Char :=
  "link".toList ++ ' ' :: l.pci ++ ' ' :: l.name ++ ' ' :: formatMac l.mac ++
    ' ' :: formatUnsigned l.mtu.toNat

def formatAddr (inet : Inet) (pci : List Char) (ad : NetsnapAddr) : List Char :=
  "addr".toList ++ ' ' :: pci ++ ' ' :: inet.ntop ad.family ad.addr ++
    '/' :: formatUnsigned ad.prefixLen.toNat ++ ' ' :: putOptional inet ad.family ad.brd ++
    ' ' :: putUntil ad.validUntil ++ ' ' :: putUntil ad.preferredUntil

def formatRoute (inet : Inet) (pci : List Char) (r : NetsnapRoute) : List Char :=
  "route".toList ++ ' ' :: pci ++ ' ' :: inet.ntop r.family r.dst ++
    '/' :: formatUnsigned r.dstLen.toNat ++ ' ' :: putOptional inet r.family r.gw ++
    ' ' :: formatUnsigned r.metric.toNat ++ ' ' :: formatUnsigned r.protocol.toNat ++
    ' ' :: formatUnsigned r.scope.toNat

def linkLines (inet : Inet) (l : NetsnapLink) : List (List Char) :=
  formatLink l :: l.addrs.map (formatAddr inet l.pci) ++ l.routes.map (formatRoute inet l.pci)

/-- `append` of a line and its newline to what is in a buffer of `len` bytes. -/
def appendLine (len : ℕ) (text line : List Char) : Except Int (List Char) :=
  if line.length + 1 ≥ len - text.length then .error (-ENOSPC) else .ok (text ++ line ++ ['\n'])

/-- The text, whose length `netsnap_format` returns. -/
def netsnapFormat (inet : Inet) (s : Netsnap) (len : ℕ) : Except Int (List Char) :=
  (s.links.flatMap (linkLines inet)).foldlM (appendLine len) []

def linkByPci (s : Netsnap) (pci : List Char) : Option ℕ :=
  s.links.findIdx? (·.pci = pci)

def scanColon : List Char → Option (List Char)
  | ':' :: rest => some rest
  | _ => none

/-- `"%x:%x:%x:%x:%x:%x"` into the six bytes. -/
def scanMac (text : List Char) : Option (Mac × List Char) := do
  let (m0, rest) ← scanHex text
  let (m1, rest) ← scanHex (← scanColon rest)
  let (m2, rest) ← scanHex (← scanColon rest)
  let (m3, rest) ← scanHex (← scanColon rest)
  let (m4, rest) ← scanHex (← scanColon rest)
  let (m5, rest) ← scanHex (← scanColon rest)
  return (⟨.ofNat m0, .ofNat m1, .ofNat m2, .ofNat m3, .ofNat m4, .ofNat m5⟩, rest)

/-- The parsers of the three kinds of lines; where they give nothing the source returns `-EINVAL`. -/
def parseLink (s : Netsnap) (pci rest : List Char) : Option Netsnap := do
  if s.links.length = NETSNAP_MAX_LINKS ∨ (linkByPci s pci).isSome ∨ pci.length ≥ 16 then none
  let (name, rest) ← scanWord 15 rest
  let (mac, rest) ← scanMac rest
  let (mtu, _) ← scanUnsigned rest
  return ⟨s.links ++ [⟨pci, name, mac, .ofNat mtu, 0, [], []⟩]⟩

def parseAddr (inet : Inet) (l : NetsnapLink) (rest : List Char) : Option NetsnapLink := do
  if l.addrs.length = NETSNAP_MAX_ADDRS then none
  let (addr, rest) ← scanWord 63 rest
  let (brd, rest) ← scanWord 63 rest
  let (valid, rest) ← scanWord 23 rest
  let (pref, _) ← scanWord 23 rest
  let ⟨family, addr, prefixLen⟩ ← getPrefix inet addr
  let validUntil ← getUntil valid
  let preferredUntil ← getUntil pref
  let brd ← getOptional inet family brd
  return { l with
    addrs := l.addrs ++ [⟨family, prefixLen, addr, brd, validUntil, preferredUntil⟩] }

def parseRoute (inet : Inet) (l : NetsnapLink) (rest : List Char) : Option NetsnapLink := do
  if l.routes.length = NETSNAP_MAX_ROUTES then none
  let (dst, rest) ← scanWord 63 rest
  let (gw, rest) ← scanWord 63 rest
  let (metric, rest) ← scanUnsigned rest
  let (protocol, rest) ← scanUnsigned rest
  let (scope, _) ← scanUnsigned rest
  if protocol % 2 ^ 32 > 255 ∨ scope % 2 ^ 32 > 255 then none
  let ⟨family, dst, dstLen⟩ ← getPrefix inet dst
  let gw ← getOptional inet family gw
  return { l with
    routes := l.routes ++ [⟨family, dstLen, .ofNat protocol, .ofNat scope, dst, gw, .ofNat metric⟩] }

def parseLine (inet : Inet) (s : Netsnap) (line : List Char) : Option Netsnap := do
  let (kind, rest) ← scanWord 7 line
  let (pci, rest) ← scanWord 31 rest
  let rest := rest.dropWhile isSpace
  if kind = "link".toList then parseLink s pci rest
  else
    let i ← linkByPci s pci
    let l ← s.links[i]?
    let l ←
      if kind = "addr".toList then parseAddr inet l rest
      else if kind = "route".toList then parseRoute inet l rest
      else none
    return ⟨s.links.set i l⟩

/-- The lines of a text, without their newlines. -/
def textLines : List Char → List (List Char)
  | [] => []
  | c :: rest =>
      if c = '\n' then [] :: textLines rest
      else
        match textLines rest with
        | [] => [[c]]
        | line :: lines => (c :: line) :: lines

/-- `snprintf(line, 256, "%.*s", (int)n, p)` for a line of `n` characters. A negative precision
counts as none. -/
def lineBuffer (line : List Char) : List Char :=
  let n := line.length % 2 ^ 32
  if n < 2 ^ 31 then (line.take n).take 255 else line.take 255

def parseLines (inet : Inet) : Netsnap → List (List Char) → Option Netsnap
  | s, [] => some s
  | s, line :: lines =>
      if lineBuffer line = [] then parseLines inet s lines
      else
        match parseLine inet s (lineBuffer line) with
        | none => none
        | some s => parseLines inet s lines

def netsnapParse (inet : Inet) (text : List Char) : Except Int Netsnap :=
  match parseLines inet ⟨[]⟩ (textLines (cString text)) with
  | none => .error (-EINVAL)
  | some s => .ok s

end Kmorph
