import Kmorph.CollectCore

/-!
Executable model of `netsnap_apply` of `lib/netsnap.c` with the requests of
`lib/rtnl.c`. Every call of the environment has an outcome of its own: a
`LinkCalls` holds those of the calls that may be made for one link.
-/

namespace Kmorph

open Records

def AF_UNSPEC : ℕ := 0
def RTM_NEWLINK : ℕ := 16
def NLM_F_REQUEST : ℕ := 0x1
def NLM_F_REPLACE : ℕ := 0x100
def NLM_F_CREATE : ℕ := 0x400
def IFF_UP : ℕ := 1
def IFLA_ADDRESS : ℕ := 1
def IFLA_IFNAME : ℕ := 3
def IFLA_MTU : ℕ := 4
def IFA_F_NODAD : ℕ := 2
def RTNL_REQ_MAX : ℕ := 512

def align4 (n : ℕ) : ℕ := (n + 3) / 4 * 4

/-- A request: the fields of its body with their widths, its attributes and `nlmsg_len`. -/
structure RtnlReq where
  type : ℕ
  flags : ℕ
  body : List (ℕ × ℕ)
  attrs : Attrs
  len : ℕ
deriving Repr, DecidableEq

def rtnlReqInit (type flags : ℕ) (body : List (ℕ × ℕ)) : RtnlReq :=
  ⟨type, NLM_F_REQUEST ||| flags, body, [], 16 + align4 (encodeFields body).length⟩

/-- An attribute too large for the buffer is left out, and no caller asks. -/
def rtnlReqAttr (r : RtnlReq) (type : ℕ) (data : List UInt8) : RtnlReq :=
  if r.len + align4 (4 + data.length) > RTNL_REQ_MAX then r
  else { r with attrs := r.attrs ++ [(type, data)], len := r.len + align4 (4 + data.length) }

def rtnlReqAttrIf (wanted : Bool) (r : RtnlReq) (type : ℕ) (data : List UInt8) : RtnlReq :=
  if wanted then rtnlReqAttr r type data else r

/-- `struct ifinfomsg`, `struct ifaddrmsg` and `struct rtmsg`. -/
def ifinfomsg (index flags change : ℕ) : List (ℕ × ℕ) :=
  [(1, AF_UNSPEC), (1, 0), (2, 0), (4, index), (4, flags), (4, change)]

def ifaddrmsg (family prefixlen flags index : ℕ) : List (ℕ × ℕ) :=
  [(1, family), (1, prefixlen), (1, flags), (1, 0), (4, index)]

def rtmsg (family dstLen table protocol scope type : ℕ) : List (ℕ × ℕ) :=
  [(1, family), (1, dstLen), (1, 0), (1, 0), (1, table), (1, protocol), (1, scope), (1, type), (4, 0)]

def familyNumber (family : Family) : ℕ := if family = .inet then AF_INET else AF_INET6

def macBytes (m : Mac) : List UInt8 := [m.m0, m.m1, m.m2, m.m3, m.m4, m.m5]

def u32Bytes (n : ℕ) : List UInt8 := encodeField (4, n)

/-- The outcomes of the calls for one link: `find`, the link and the up request, and for each
address and route by its index the clock and the request. -/
structure LinkCalls where
  find : Except Int (List Char × UInt32)
  link : Int
  up : Int
  now : ℕ → Int
  addr : ℕ → Int
  route : ℕ → Int

/-- The result and the requests made on the way to it. -/
abbrev Talked := Int × List RtnlReq

def restoreLink (calls : LinkCalls) (l : NetsnapLink) (ifindex : UInt32) (cur : List Char) : Talked :=
  let r := rtnlReqInit RTM_NEWLINK 0 (ifinfomsg ifindex.toNat 0 0)
  let r := rtnlReqAttr r IFLA_ADDRESS (macBytes l.mac)
  let r := rtnlReqAttrIf (l.mtu ≠ 0) r IFLA_MTU (u32Bytes l.mtu.toNat)
  let r := rtnlReqAttrIf (cur ≠ l.name) r IFLA_IFNAME (stringBytes l.name)
  -- what the kernel says to the first request is only logged
  let first : Talked := (calls.link, [r])
  let up := rtnlReqInit RTM_NEWLINK 0 (ifinfomsg ifindex.toNat IFF_UP IFF_UP)
  (calls.up, first.2 ++ [up])

def lifeLeft (time now : Int) : UInt32 :=
  if time = 0 then UInt32.ofNat LIFE_FOREVER
  else if time > now then UInt32.ofNat (time - now).toNat
  else 0

def restoreAddr (now talked : Int) (a : NetsnapAddr) (ifindex : UInt32) : Talked :=
  let valid := lifeLeft a.validUntil now
  let preferred := lifeLeft a.preferredUntil now
  if valid = 0 then (-ETIME, [])
  else
    let preferred := if preferred > valid then valid else preferred
    let r := rtnlReqInit RTM_NEWADDR (NLM_F_CREATE ||| NLM_F_REPLACE)
      (ifaddrmsg (familyNumber a.family) a.prefixLen.toNat IFA_F_NODAD ifindex.toNat)
    let r := rtnlReqAttr r IFA_LOCAL a.addr.toList
    let r := rtnlReqAttr r IFA_ADDRESS a.addr.toList
    let r := rtnlReqAttrIf a.brd.isSome r IFA_BROADCAST (a.brd.elim [] (·.toList))
    let r := rtnlReqAttr r IFA_FLAGS (u32Bytes IFA_F_NODAD)
    let r := rtnlReqAttr r IFA_CACHEINFO
      (encodeFields [(4, preferred.toNat), (4, valid.toNat), (4, 0), (4, 0)])
    (talked, [r])

def restoreRoute (talked : Int) (rt : NetsnapRoute) (ifindex : UInt32) : Talked :=
  let r := rtnlReqInit RTM_NEWROUTE (NLM_F_CREATE ||| NLM_F_REPLACE)
    (rtmsg (familyNumber rt.family) rt.dstLen.toNat RT_TABLE_MAIN rt.protocol.toNat rt.scope.toNat
      RTN_UNICAST)
  let r := rtnlReqAttrIf (rt.dstLen ≠ 0) r RTA_DST rt.dst.toList
  let r := rtnlReqAttrIf rt.gw.isSome r RTA_GATEWAY (rt.gw.elim [] (·.toList))
  let r := rtnlReqAttr r RTA_OIF (u32Bytes ifindex.toNat)
  let r := rtnlReqAttrIf (rt.metric ≠ 0) r RTA_PRIORITY (u32Bytes rt.metric.toNat)
  (talked, [r])

/-- The loops over the addresses and, in each pass, over the routes from index `i` on. What fails
is only logged. -/
def restoreAddrs (calls : LinkCalls) (ifindex : UInt32) : ℕ → List NetsnapAddr → List RtnlReq
  | _, [] => []
  | j, a :: rest =>
      (restoreAddr (calls.now j) (calls.addr j) a ifindex).2 ++ restoreAddrs calls ifindex (j + 1) rest

def restorePass (calls : LinkCalls) (ifindex : UInt32) (pass : ℕ) :
    ℕ → List NetsnapRoute → List RtnlReq
  | _, [] => []
  | i, rt :: rest =>
      if rt.gw.isSome ≠ decide (pass = 1) then restorePass calls ifindex pass (i + 1) rest
      else (restoreRoute (calls.route i) rt ifindex).2 ++ restorePass calls ifindex pass (i + 1) rest

def restoreRoutes (calls : LinkCalls) (l : NetsnapLink) (ifindex : UInt32) : List RtnlReq :=
  restorePass calls ifindex 0 0 l.routes ++ restorePass calls ifindex 1 0 l.routes

/-- What `netsnap_apply` returns, the array `restored` where there is one, and the requests. -/
structure Applied where
  up : ℕ
  restored : Option (List Bool)
  requests : List RtnlReq
deriving Repr, DecidableEq

def applyLink (calls : LinkCalls) (i : ℕ) (l : NetsnapLink) (done : Applied) : Applied :=
  let done := { done with restored := done.restored.map (·.set i false) }
  match calls.find with
  | .error _ => done
  | .ok (cur, ifindex) =>
      let raised := restoreLink calls l ifindex cur
      let done := { done with requests := done.requests ++ raised.2 }
      if raised.1 ≠ 0 then done
      else
        { up := done.up + 1
          restored := done.restored.map (·.set i true)
          requests := done.requests ++
            (restoreAddrs calls ifindex 0 l.addrs ++ restoreRoutes calls l ifindex) }

def applyLinks (env : ℕ → LinkCalls) : ℕ → List NetsnapLink → Applied → Applied
  | _, [], done => done
  | i, l :: rest, done => applyLinks env (i + 1) rest (applyLink (env i) i l done)

def netsnapApply (env : ℕ → LinkCalls) (s : Netsnap) (restored : Option (List Bool)) : Applied :=
  applyLinks env 0 s.links ⟨0, restored, []⟩

end Kmorph
