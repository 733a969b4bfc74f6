import Kmorph.NetsnapCore
import Kmorph.Records

/-!
How the predecessor's network identity is collected, `netsnap_collect` of
`lib/netsnap.c` and `devname_resolve` of `lib/devname.c`: the interfaces sysfs
lists, and the messages rtnetlink answers the dumps of addresses and routes with.
-/

namespace Kmorph

open Records

def ENODEV : Int := 19
def EEXIST : Int := 17

/-- The directories a name is looked up in: the three classes and the USB devices. -/
inductive SysClass
  | net
  | block
  | graphics
  | usb
deriving Repr, DecidableEq

inductive NetAttr
  | address
  | mtu
  | ifindex
deriving Repr, DecidableEq

/-- What sysfs shows; `realpath` gives the components of a path and `file` the text of one
in the directory of an interface. -/
structure Sysfs where
  entries : List (List Char)
  access : SysClass → List Char → Bool
  realpath : SysClass → List Char → Except Int (List (List Char))
  file : List Char → NetAttr → Except Int (List Char)

def devnameIsPciId (s : List Char) : Bool :=
  s.length = 12 &&
    ("hhhh:hh:hh.h".toList.zip s).all fun (p, c) => if p = 'h' then isXdigit c else c = p

def devnameResolve (fs : Sysfs) (name : List Char) (len : ℕ) : Except Int (List Char) :=
  if name = [] ∨ '/' ∈ name then .error (-EINVAL)
  else
    match [SysClass.net, .block, .graphics, .usb].filter fun c => fs.access c name with
    | [] => .error (-ENOENT)
    | [found] =>
        match fs.realpath found name with
        | .error errno => .error (-errno)
        | .ok path =>
            -- The nearest ancestor named like a PCI function is the one to hand over.
            match path.dropLast.reverse.find? devnameIsPciId with
            | none => .error (-ENODEV)
            | some base => .ok (base.take (len - 1))
    | _ => .error (-EEXIST)

/-- `strtol` into an `int` -/
def toInt (n : Int) : Int := n.bmod (2 ^ 32)

def readLink (fs : Sysfs) (name : List Char) : Except Int NetsnapLink :=
  if name.length ≥ 16 then .error (-ENODEV)
  else
    match devnameResolve fs name 16 with
    | .error _ => .error (-ENODEV)
    | .ok pci =>
        match fs.file name .address with
        | .error ret => .error ret
        | .ok text =>
            match scanMac text with
            | none => .error (-EINVAL)
            | some (mac, _) =>
                .ok {
                  pci := pci
                  name := name
                  mac := mac
                  mtu :=
                    match fs.file name .mtu with
                    | .ok text => .ofNat (strtoul text).1
                    | .error _ => 0
                  ifindex :=
                    match fs.file name .ifindex with
                    | .ok text => toInt (strtoll text).1
                    | .error _ => 0
                  addrs := []
                  routes := []
                }

def strlistContains (l : List (List Char)) (s : List Char) : Bool := l.any fun item => item = s

/-- The loop of `netsnap_collect` over the directory. -/
def collectLinks (fs : Sysfs) (skip : List (List Char)) :
    List (List Char) → List NetsnapLink → List NetsnapLink
  | [], links => links
  | name :: rest, links =>
      if links.length < NETSNAP_MAX_LINKS then
        if name.head? = some '.' then collectLinks fs skip rest links
        else
          match readLink fs name with
          | .error _ => collectLinks fs skip rest links
          | .ok l =>
              if strlistContains skip l.pci then collectLinks fs skip rest links
              else collectLinks fs skip rest (links ++ [l])
      else links

def AF_INET : ℕ := 2
def AF_INET6 : ℕ := 10
def RTM_NEWADDR : ℕ := 20
def RTM_NEWROUTE : ℕ := 24
def RT_SCOPE_UNIVERSE : ℕ := 0
def RTN_UNICAST : ℕ := 1
def RTPROT_KERNEL : ℕ := 2
def RT_TABLE_MAIN : ℕ := 254
def IFA_ADDRESS : ℕ := 1
def IFA_LOCAL : ℕ := 2
def IFA_BROADCAST : ℕ := 4
def IFA_CACHEINFO : ℕ := 6
def IFA_FLAGS : ℕ := 8
def RTA_DST : ℕ := 1
def RTA_OIF : ℕ := 4
def RTA_GATEWAY : ℕ := 5
def RTA_PRIORITY : ℕ := 6
def RTA_MULTIPATH : ℕ := 9
def RTA_TABLE : ℕ := 15
def LIFE_FOREVER : ℕ := 0xffffffff

def familyOf (number : ℕ) : Option Family :=
  if number = AF_INET then some .inet else if number = AF_INET6 then some .inet6 else none

/-- The data of the attributes of a message, by type. -/
abbrev Attrs := List (ℕ × List UInt8)

def rtnlAttr (attrs : Attrs) (type : ℕ) : Option (List UInt8) :=
  (attrs.find? (·.1 = type)).map Prod.snd

/-- An attribute that holds four bytes, as a number. -/
def attr32 (attrs : Attrs) (type : ℕ) : Option ℕ :=
  (rtnlAttr attrs type).bind fun data => if data.length = 4 then some (decodeField data) else none

/-- An attribute that holds an address of the family. -/
def attrIp (attrs : Attrs) (type : ℕ) (family : Family) : Option (IpAddr family) :=
  (rtnlAttr attrs type).bind fun data =>
    if count : data.length = addrLen family then some ⟨data.toArray, by simpa using count⟩ else none

/-- A message of the address dump, and the time at which it is handled. -/
structure AddrMsg where
  type : ℕ
  family : ℕ
  prefixlen : UInt8
  flags : UInt8
  scope : ℕ
  index : UInt32
  attrs : Attrs
  now : ℕ
deriving Repr, DecidableEq

structure RouteMsg where
  type : ℕ
  family : ℕ
  dstLen : UInt8
  srcLen : UInt8
  table : UInt8
  protocol : UInt8
  scope : UInt8
  rtmType : ℕ
  attrs : Attrs
deriving Repr, DecidableEq

def linkByIndex (s : Netsnap) (ifindex : Int) : Option ℕ :=
  s.links.findIdx? (·.ifindex = ifindex)

/-- The end of a lifetime of `struct ifa_cacheinfo`, which starts with the preferred lifetime and
the valid one. -/
def lifeEnd (h : AddrMsg) (field : ℕ) : Int :=
  match rtnlAttr h.attrs IFA_CACHEINFO with
  | none => 0
  | some data =>
      if data.length = 16 then
        let life := decodeField ((data.drop (4 * field)).take 4)
        if life = LIFE_FOREVER then 0 else h.now + life
      else 0

/-- The address a message is about, unless the kernel makes it up by itself or rotates it. -/
def addrOf (h : AddrMsg) : Option NetsnapAddr := do
  if h.type ≠ RTM_NEWADDR ∨ h.scope ≠ RT_SCOPE_UNIVERSE then none
  let family ← familyOf h.family
  let flags := (attr32 h.attrs IFA_FLAGS).getD h.flags.toNat
  if family = .inet6 ∧ flags % 2 = 1 then none
  let addr ← attrIp h.attrs (if family = .inet then IFA_LOCAL else IFA_ADDRESS) family
  return {
    family := family
    prefixLen := h.prefixlen
    addr := addr
    brd := attrIp h.attrs IFA_BROADCAST family
    validUntil := lifeEnd h 1
    preferredUntil := lifeEnd h 0
  }

def collectAddr (s : Netsnap) (h : AddrMsg) : Except Int Netsnap :=
  match linkByIndex s (toInt h.index.toNat), addrOf h with
  | some i, some ad =>
      match s.links[i]? with
      | none => .ok s
      | some l =>
          if l.addrs.length = NETSNAP_MAX_ADDRS then .error (-E2BIG)
          else .ok ⟨s.links.set i { l with addrs := l.addrs ++ [ad] }⟩
  | _, _ => .ok s

/-- The route a message is about and its interface, unless adding an address creates it. -/
def routeOf (h : RouteMsg) : Option (Int × NetsnapRoute) := do
  if h.type ≠ RTM_NEWROUTE ∨ h.rtmType ≠ RTN_UNICAST ∨ h.protocol.toNat = RTPROT_KERNEL ∨
      h.srcLen ≠ 0 then none
  let family ← familyOf h.family
  if (rtnlAttr h.attrs RTA_MULTIPATH).isSome then none
  if (attr32 h.attrs RTA_TABLE).getD h.table.toNat ≠ RT_TABLE_MAIN then none
  let oif ← attr32 h.attrs RTA_OIF
  return (toInt oif, {
    family := family
    dstLen := h.dstLen
    protocol := h.protocol
    scope := h.scope
    dst := (attrIp h.attrs RTA_DST family).getD (Vector.replicate _ 0)
    gw := attrIp h.attrs RTA_GATEWAY family
    metric := .ofNat ((attr32 h.attrs RTA_PRIORITY).getD 0)
  })

def collectRoute (s : Netsnap) (h : RouteMsg) : Except Int Netsnap :=
  match routeOf h with
  | none => .ok s
  | some (ifindex, r) =>
      match linkByIndex s ifindex with
      | none => .ok s
      | some i =>
          match s.links[i]? with
          | none => .ok s
          | some l =>
              if l.routes.length = NETSNAP_MAX_ROUTES then .error (-E2BIG)
              else .ok ⟨s.links.set i { l with routes := l.routes ++ [r] }⟩

/-- What a dump answers: messages, and how it ends. -/
structure RtnlAnswer (μ : Type) where
  messages : List μ
  ret : Int

def rtnlDump {μ : Type} (answer : RtnlAnswer μ) (cb : Netsnap → μ → Except Int Netsnap)
    (s : Netsnap) : Except Int Netsnap :=
  match answer.messages.foldlM cb s with
  | .error ret => .error ret
  | .ok s => if answer.ret ≠ 0 then .error answer.ret else .ok s

/-- The kernel of the predecessor as `netsnap_collect` sees it. Names, prefix lengths and the clock
are within the kernel's own limits. -/
structure NetMachine where
  fs : Sysfs
  opened : Int
  socket : Int
  addrs : RtnlAnswer AddrMsg
  routes : RtnlAnswer RouteMsg
  names : ∀ name ∈ fs.entries, IsWord 15 name ∧ '/' ∉ name
  addrPrefix : ∀ h ∈ addrs.messages, ∀ family ∈ familyOf h.family,
    h.prefixlen.toNat ≤ addrLen family * 8
  routePrefix : ∀ h ∈ routes.messages, ∀ family ∈ familyOf h.family,
    h.dstLen.toNat ≤ addrLen family * 8
  clock : ∀ h ∈ addrs.messages, h.now < 2 ^ 62

def netsnapCollect (m : NetMachine) (skip : List (List Char)) : Except Int Netsnap :=
  if m.opened ≠ 0 then .error m.opened
  else
    let links := collectLinks m.fs skip m.fs.entries []
    if links = [] then .ok ⟨[]⟩
    else if m.socket < 0 then .error m.socket
    else
      match rtnlDump m.addrs collectAddr ⟨links⟩ with
      | .error ret => .error ret
      | .ok s => rtnlDump m.routes collectRoute s

end Kmorph
