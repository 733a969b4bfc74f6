import Kmorph.ApplyCore
import Kmorph.Netsnap

/-!
What `netsnap_apply` asks of the kernel. The requests of a link are those of
`linkSequence`, whatever each of them comes to; an address keeps what is left of its
lease unless the seconds left do not fit where the kernel wants them.
-/

namespace Kmorph

open Records

def attrsLen (attrs : Attrs) : ℕ := (attrs.map fun attr => align4 (4 + attr.2.length)).sum

def requestOf (type flags : ℕ) (body : List (ℕ × ℕ)) (attrs : Attrs) : RtnlReq :=
  ⟨type, NLM_F_REQUEST ||| flags, body, attrs, 16 + align4 (encodeFields body).length + attrsLen attrs⟩

section Requests

variable {type flags : ℕ} {body : List (ℕ × ℕ)} {attrs : Attrs}

theorem rtnlReqInit_eq : rtnlReqInit type flags body = requestOf type flags body [] := rfl

@[simp] theorem attrsLen_nil : attrsLen [] = 0 := rfl

@[simp] theorem attrsLen_singleton (kind : ℕ) (data : List UInt8) :
    attrsLen [(kind, data)] = align4 (4 + data.length) := rfl

@[simp] theorem attrsLen_append (first second : Attrs) :
    attrsLen (first ++ second) = attrsLen first + attrsLen second := by
  simp [attrsLen]

theorem attrsLen_if_le {wanted : Prop} [Decidable wanted] (kind : ℕ) {data : List UInt8} {n : ℕ}
    (short : data.length ≤ n) :
    attrsLen (if wanted then [(kind, data)] else []) ≤ align4 (4 + n) := by
  split
  · rw [attrsLen_singleton, align4, align4]
    omega
  · exact Nat.zero_le _

theorem rtnlReqAttr_eq {kind : ℕ} {data : List UInt8}
    (fits : 16 + align4 (encodeFields body).length + attrsLen attrs + align4 (4 + data.length) ≤
      RTNL_REQ_MAX) :
    rtnlReqAttr (requestOf type flags body attrs) kind data =
      requestOf type flags body (attrs ++ [(kind, data)]) := by
  have small : ¬ (requestOf type flags body attrs).len + align4 (4 + data.length) > RTNL_REQ_MAX :=
    Nat.not_lt.mpr fits
  rw [rtnlReqAttr, if_neg small]
  simp [requestOf, Nat.add_assoc]

theorem rtnlReqAttrIf_eq {wanted : Bool} {kind : ℕ} {data : List UInt8}
    (fits : 16 + align4 (encodeFields body).length + attrsLen attrs + align4 (4 + data.length) ≤
      RTNL_REQ_MAX) :
    rtnlReqAttrIf wanted (requestOf type flags body attrs) kind data =
      requestOf type flags body (attrs ++ if wanted then [(kind, data)] else []) := by
  cases wanted with
  | false => rw [rtnlReqAttrIf, if_neg (by simp), if_neg (by simp), List.append_nil]
  | true => rw [rtnlReqAttrIf, if_pos rfl, if_pos rfl, rtnlReqAttr_eq fits]

end Requests

/-- The MAC, the MTU unless it is 0, and the name unless the interface has it. -/
def linkAttrs (l : NetsnapLink) (cur : List Char) : Attrs :=
  [(IFLA_ADDRESS, macBytes l.mac)] ++
    (if l.mtu ≠ 0 then [(IFLA_MTU, u32Bytes l.mtu.toNat)] else []) ++
    if cur ≠ l.name then [(IFLA_IFNAME, stringBytes l.name)] else []

def linkRequest (l : NetsnapLink) (cur : List Char) (ifindex : UInt32) : RtnlReq :=
  requestOf RTM_NEWLINK 0 (ifinfomsg ifindex.toNat 0 0) (linkAttrs l cur)

def upRequest (ifindex : UInt32) : RtnlReq :=
  requestOf RTM_NEWLINK 0 (ifinfomsg ifindex.toNat IFF_UP IFF_UP) []

theorem length_u32Bytes (n : ℕ) : (u32Bytes n).length = 4 := length_encodeField (4, n)

theorem length_ifinfomsg (index flags change : ℕ) :
    (encodeFields (ifinfomsg index flags change)).length = 16 := by
  rw [length_encodeFields]
  rfl

theorem restoreLink_eq (calls : LinkCalls) {l : NetsnapLink} (ifindex : UInt32) (cur : List Char)
    (named : l.name.length < 16) :
    restoreLink calls l ifindex cur = (calls.up, [linkRequest l cur ifindex, upRequest ifindex]) := by
  have name : (stringBytes l.name).length ≤ 16 := by
    simp only [stringBytes, List.length_append, List.length_map, List.length_singleton]
    omega
  have mac : (macBytes l.mac).length = 6 := rfl
  have mtu := length_u32Bytes l.mtu.toNat
  have mtuAttr := @attrsLen_if_le (decide (l.mtu ≠ 0) = true) _ IFLA_MTU _ 4 (le_of_eq mtu)
  simp only [restoreLink, rtnlReqInit_eq]
  rw [rtnlReqAttr_eq, rtnlReqAttrIf_eq, rtnlReqAttrIf_eq]
  · simp [linkRequest, linkAttrs, upRequest]
  all_goals
    simp only [length_ifinfomsg, attrsLen_append, attrsLen_nil, List.nil_append, attrsLen_singleton, mac, mtu,
      align4, RTNL_REQ_MAX] at mtuAttr ⊢
    omega

def routeAttrs (rt : NetsnapRoute) (ifindex : UInt32) : Attrs :=
  (if rt.dstLen ≠ 0 then [(RTA_DST, rt.dst.toList)] else []) ++
    (if rt.gw.isSome then [(RTA_GATEWAY, rt.gw.elim [] (·.toList))] else []) ++
    [(RTA_OIF, u32Bytes ifindex.toNat)] ++
    if rt.metric ≠ 0 then [(RTA_PRIORITY, u32Bytes rt.metric.toNat)] else []

def routeRequest (rt : NetsnapRoute) (ifindex : UInt32) : RtnlReq :=
  requestOf RTM_NEWROUTE (NLM_F_CREATE ||| NLM_F_REPLACE)
    (rtmsg (familyNumber rt.family) rt.dstLen.toNat RT_TABLE_MAIN rt.protocol.toNat rt.scope.toNat
      RTN_UNICAST) (routeAttrs rt ifindex)

theorem length_addr {family : Family} (addr : IpAddr family) : addr.toList.length ≤ 16 := by
  rw [Vector.length_toList]
  cases family with
  | inet => decide
  | inet6 => decide

theorem length_optional {family : Family} (addr : Option (IpAddr family)) :
    (addr.elim [] (·.toList)).length ≤ 16 := by
  cases addr with
  | none => exact Nat.zero_le _
  | some addr => exact length_addr addr

theorem restoreRoute_eq (talked : Int) (rt : NetsnapRoute) (ifindex : UInt32) :
    restoreRoute talked rt ifindex = (talked, [routeRequest rt ifindex]) := by
  have body (family dstLen table protocol scope type : ℕ) :
      (encodeFields (rtmsg family dstLen table protocol scope type)).length = 12 := by
    rw [length_encodeFields]
    rfl
  have dst := length_addr rt.dst
  have gw := length_optional rt.gw
  have number := length_u32Bytes
  have dstAttr := @attrsLen_if_le (decide (rt.dstLen ≠ 0) = true) _ RTA_DST _ 16 dst
  have gwAttr := @attrsLen_if_le (rt.gw.isSome = true) _ RTA_GATEWAY _ 16 gw
  simp only [restoreRoute, rtnlReqInit_eq]
  rw [rtnlReqAttrIf_eq, rtnlReqAttrIf_eq, rtnlReqAttr_eq, rtnlReqAttrIf_eq]
  · simp [routeRequest, routeAttrs]
  all_goals
    simp only [body, attrsLen_append, attrsLen_nil, List.nil_append, attrsLen_singleton, number,
      align4, RTNL_REQ_MAX] at dstAttr gwAttr ⊢
    omega

def preferredLeft (a : NetsnapAddr) (now : Int) : UInt32 :=
  if lifeLeft a.preferredUntil now > lifeLeft a.validUntil now then lifeLeft a.validUntil now
  else lifeLeft a.preferredUntil now

def addrAttrs (a : NetsnapAddr) (now : Int) : Attrs :=
  [(IFA_LOCAL, a.addr.toList), (IFA_ADDRESS, a.addr.toList)] ++
    (if a.brd.isSome then [(IFA_BROADCAST, a.brd.elim [] (·.toList))] else []) ++
    [(IFA_FLAGS, u32Bytes IFA_F_NODAD),
      (IFA_CACHEINFO, encodeFields [(4, (preferredLeft a now).toNat),
        (4, (lifeLeft a.validUntil now).toNat), (4, 0), (4, 0)])]

def addrRequest (a : NetsnapAddr) (now : Int) (ifindex : UInt32) : RtnlReq :=
  requestOf RTM_NEWADDR (NLM_F_CREATE ||| NLM_F_REPLACE)
    (ifaddrmsg (familyNumber a.family) a.prefixLen.toNat IFA_F_NODAD ifindex.toNat) (addrAttrs a now)

theorem restoreAddr_eq (now talked : Int) (a : NetsnapAddr) (ifindex : UInt32) :
    restoreAddr now talked a ifindex =
      if lifeLeft a.validUntil now = 0 then (-ETIME, []) else (talked, [addrRequest a now ifindex]) := by
  have body (family prefixlen flags index : ℕ) :
      (encodeFields (ifaddrmsg family prefixlen flags index)).length = 8 := by
    rw [length_encodeFields]
    rfl
  have addr := length_addr a.addr
  have brd := length_optional a.brd
  have number := length_u32Bytes
  have brdAttr := @attrsLen_if_le (a.brd.isSome = true) _ IFA_BROADCAST _ 16 brd
  have info (p v : ℕ) : (encodeFields [(4, p), (4, v), (4, 0), (4, 0)]).length = 16 := by
    rw [length_encodeFields]
    rfl
  simp only [restoreAddr, rtnlReqInit_eq]
  split
  · rfl
  · rw [rtnlReqAttr_eq, rtnlReqAttr_eq, rtnlReqAttrIf_eq, rtnlReqAttr_eq, rtnlReqAttr_eq]
    · simp [addrRequest, addrAttrs, preferredLeft]
    all_goals
      simp only [body, attrsLen_append, attrsLen_nil, List.nil_append, attrsLen_singleton, number, info,
        align4, RTNL_REQ_MAX] at brdAttr ⊢
      omega

/-- The requests for a link on an interface: it is described and raised; once it is up come the
addresses whose lease has not run out, the routes without and those with a gateway. -/
def interfaceSequence (calls : LinkCalls) (l : NetsnapLink) (cur : List Char) (ifindex : UInt32) :
    List RtnlReq :=
  [linkRequest l cur ifindex, upRequest ifindex] ++
    if calls.up ≠ 0 then []
    else
      ((l.addrs.zipIdx.filter fun (a, j) => lifeLeft a.validUntil (calls.now j) ≠ 0).map
        fun (a, j) => addrRequest a (calls.now j) ifindex) ++
      ((l.routes.filter fun rt => rt.gw.isNone).map fun rt => routeRequest rt ifindex) ++
      (l.routes.filter fun rt => rt.gw.isSome).map fun rt => routeRequest rt ifindex

def linkSequence (calls : LinkCalls) (l : NetsnapLink) : List RtnlReq :=
  match calls.find with
  | .error _ => []
  | .ok (cur, ifindex) => interfaceSequence calls l cur ifindex

def CameUp (calls : LinkCalls) : Prop := calls.find.isOk = true ∧ calls.up = 0

instance (calls : LinkCalls) : Decidable (CameUp calls) := inferInstanceAs (Decidable (_ ∧ _))

theorem restoreAddrs_eq (calls : LinkCalls) (ifindex : UInt32) (start : ℕ) (addrs : List NetsnapAddr) :
    restoreAddrs calls ifindex start addrs =
      ((addrs.zipIdx start).filter fun (a, j) => lifeLeft a.validUntil (calls.now j) ≠ 0).map
        fun (a, j) => addrRequest a (calls.now j) ifindex := by
  induction addrs generalizing start with
  | nil => rfl
  | cons a rest ih =>
      rw [restoreAddrs, ih, restoreAddr_eq, List.zipIdx_cons]
      by_cases out : lifeLeft a.validUntil (calls.now start) = 0
      · rw [if_pos out, List.filter_cons_of_neg (by simp [out])]
        rfl
      · rw [if_neg out, List.filter_cons_of_pos (by simp [out])]
        rfl

theorem restorePass_eq (calls : LinkCalls) (ifindex : UInt32) (pass start : ℕ)
    (routes : List NetsnapRoute) :
    restorePass calls ifindex pass start routes =
      (routes.filter fun rt => rt.gw.isSome = decide (pass = 1)).map fun rt => routeRequest rt ifindex := by
  induction routes generalizing start with
  | nil => rfl
  | cons rt rest ih =>
      rw [restorePass, ih]
      by_cases other : rt.gw.isSome = decide (pass = 1)
      · rw [if_neg (not_not.mpr other), restoreRoute_eq, List.filter_cons_of_pos (by simp [other])]
        rfl
      · rw [if_pos other, List.filter_cons_of_neg (by simp [other])]

theorem restoreRoutes_eq (calls : LinkCalls) (l : NetsnapLink) (ifindex : UInt32) :
    restoreRoutes calls l ifindex =
      ((l.routes.filter fun rt => rt.gw.isNone).map fun rt => routeRequest rt ifindex) ++
        (l.routes.filter fun rt => rt.gw.isSome).map fun rt => routeRequest rt ifindex := by
  rw [restoreRoutes, restorePass_eq, restorePass_eq]
  congr 2
  · apply List.filter_congr
    intro rt _
    cases rt.gw <;> rfl
  · apply List.filter_congr
    intro rt _
    cases rt.gw <;> rfl

theorem applyLink_eq (calls : LinkCalls) (i : ℕ) {l : NetsnapLink} (done : Applied)
    (named : l.name.length < 16) :
    applyLink calls i l done =
      { up := done.up + if CameUp calls then 1 else 0
        restored := done.restored.map (·.set i (decide (CameUp calls)))
        requests := done.requests ++ linkSequence calls l } := by
  rw [applyLink, linkSequence]
  cases found : calls.find with
  | error ret =>
      have down : ¬ CameUp calls := by
        rintro ⟨isOk, -⟩
        rw [found] at isOk
        exact Bool.false_ne_true isOk
      simp [down]
  | ok interface =>
      obtain ⟨cur, ifindex⟩ := interface
      simp only [restoreLink_eq calls ifindex cur named, interfaceSequence]
      by_cases raised : calls.up = 0
      · have up : CameUp calls := ⟨by rw [found]; rfl, raised⟩
        cases done.restored <;> simp [up, raised, restoreAddrs_eq, restoreRoutes_eq]
      · have down : ¬ CameUp calls := fun up => raised up.2
        simp [down, raised]

theorem applyLinks_eq (env : ℕ → LinkCalls) (start : ℕ) {links : List NetsnapLink} (done : Applied)
    (named : ∀ l ∈ links, l.name.length < 16) :
    applyLinks env start links done =
      { up := done.up + ((links.zipIdx start).filter fun (_, i) => CameUp (env i)).length
        restored := done.restored.map fun marks => (links.zipIdx start).foldl
          (fun marks (_, i) => marks.set i (decide (CameUp (env i)))) marks
        requests := done.requests ++
          (links.zipIdx start).flatMap fun (l, i) => linkSequence (env i) l } := by
  induction links generalizing start done with
  | nil => simp [applyLinks]
  | cons l rest ih =>
      rw [applyLinks, applyLink_eq _ _ _ (named l (by simp)),
        ih _ _ fun other member => named other (by simp [member])]
      obtain ⟨count, restored, requests⟩ := done
      by_cases up : CameUp (env start)
      · cases restored <;> simp [up, List.zipIdx_cons] <;> omega
      · cases restored <;> simp [up, List.zipIdx_cons]

/-- The marks of the rounds: each link has its own, and the rest of the array is untouched. -/
theorem getElem?_marks (env : ℕ → LinkCalls) (start : ℕ) (links : List NetsnapLink) {marks : List Bool}
    (room : start + links.length ≤ marks.length) (i : ℕ) :
    ((links.zipIdx start).foldl (fun marks (_, i) => marks.set i (decide (CameUp (env i)))) marks)[i]? =
      if start ≤ i ∧ i < start + links.length then some (decide (CameUp (env i))) else marks[i]? := by
  induction links generalizing start marks with
  | nil =>
      rw [List.length_nil, if_neg (by omega)]
      rfl
  | cons l rest ih =>
      rw [List.length_cons] at room
      rw [List.zipIdx_cons, List.foldl_cons, ih (start + 1) (by rw [List.length_set]; omega),
        List.length_cons]
      by_cases later : start + 1 ≤ i ∧ i < start + 1 + rest.length
      · rw [if_pos later, if_pos (by omega)]
      · rw [if_neg later]
        by_cases here : start = i
        · rw [if_pos (by omega), here, List.getElem?_set_self (by omega)]
        · rw [if_neg (by omega), List.getElem?_set_ne here]

/-- Whatever each call comes to, `netsnap_apply` makes the requests of each link in order, marks
those that came up and returns their number. -/
theorem netsnapApply_requests (env : ℕ → LinkCalls) {s : Netsnap} (restored : Option (List Bool))
    (named : ∀ l ∈ s.links, l.name.length < 16)
    (room : ∀ marks ∈ restored, s.links.length ≤ marks.length) :
    (netsnapApply env s restored).requests =
        s.links.zipIdx.flatMap (fun (l, i) => linkSequence (env i) l) ∧
      (netsnapApply env s restored).up =
        (s.links.zipIdx.filter fun (_, i) => CameUp (env i)).length ∧
      (netsnapApply env s restored).restored.isSome = restored.isSome ∧
      ∀ marks ∈ (netsnapApply env s restored).restored, ∀ i < s.links.length,
        marks[i]? = some (decide (CameUp (env i))) := by
  rw [netsnapApply, applyLinks_eq env 0 _ named]
  refine ⟨by simp, by simp, by simp, ?_⟩
  intro after member i inside
  obtain ⟨marks, given, rfl⟩ := Option.map_eq_some_iff.mp member
  rw [getElem?_marks env 0 s.links (by simpa using room marks given), if_pos ⟨Nat.zero_le i, by omega⟩]

/-- The interface of the first link has another name, that of the second never appears. -/
def sampleCalls (i : ℕ) : LinkCalls where
  find := if i = 0 then .ok ("enp1s0".toList, 7) else .error (-ETIMEDOUT)
  link := - EBUSY
  up := 0
  now := fun _ => 1000
  addr := fun _ => 0
  route := fun _ => 0

def sampleLinks : Netsnap := ⟨sampleSnap.links ++ [
  { pci := "0000:02:00.0".toList
    name := "eth1".toList
    mac := ⟨0x52, 0x54, 0x00, 0xab, 0xcd, 0xef⟩
    mtu := 9000
    ifindex := 0
    addrs := []
    routes := [] }]⟩

theorem sampleLinks_named : ∀ l ∈ sampleLinks.links, l.name.length < 16 := by decide

theorem netsnapApply_requests_sample :
    (∀ l ∈ sampleLinks.links, l.name.length < 16) ∧
      (netsnapApply sampleCalls sampleLinks (some [true, true])).up = 1 ∧
      (netsnapApply sampleCalls sampleLinks (some [true, true])).requests.map (·.type) =
        [RTM_NEWLINK, RTM_NEWLINK, RTM_NEWROUTE] := by
  obtain ⟨requests, up, -, -⟩ := netsnapApply_requests sampleCalls (some [true, true]) sampleLinks_named
    (by simp [sampleLinks, sampleSnap])
  refine ⟨sampleLinks_named, ?_, ?_⟩
  · rw [up]
    decide
  · rw [requests]
    decide

theorem lifeLeft_of_left {time now : Int} (limited : time ≠ 0) (left : now < time) :
    (lifeLeft time now).toNat = (time - now).toNat % 2 ^ 32 := by
  rw [lifeLeft, if_neg limited, if_pos left, UInt32.toNat_ofNat']

theorem preferredLeft_le (a : NetsnapAddr) (now : Int) :
    (preferredLeft a now).toNat ≤ (lifeLeft a.validUntil now).toNat := by
  rw [preferredLeft]
  split
  · exact Nat.le_refl _
  · rename_i within
    exact Nat.le_of_not_lt fun beyond => within (UInt32.lt_iff_toNat_lt.mpr beyond)

/-- The preferred and the valid lifetime of an address request, as the kernel reads them. -/
def leaseOf (r : RtnlReq) : Option (ℕ × ℕ) :=
  (rtnlAttr r.attrs IFA_CACHEINFO).map fun data =>
    (decodeField (data.take 4), decodeField ((data.drop 4).take 4))

theorem leaseOf_addrRequest (a : NetsnapAddr) (now : Int) (ifindex : UInt32) :
    leaseOf (addrRequest a now ifindex) =
      some ((preferredLeft a now).toNat, (lifeLeft a.validUntil now).toNat) := by
  have found : rtnlAttr (addrAttrs a now) IFA_CACHEINFO =
      some (encodeFields [(4, (preferredLeft a now).toNat), (4, (lifeLeft a.validUntil now).toNat),
        (4, 0), (4, 0)]) := by
    cases brd : a.brd.isSome <;>
      simp [rtnlAttr, addrAttrs, brd, IFA_LOCAL, IFA_ADDRESS, IFA_BROADCAST, IFA_FLAGS, IFA_CACHEINFO]
  have preferred := (preferredLeft a now).toNat_lt
  have valid := (lifeLeft a.validUntil now).toNat_lt
  have fields := @decodeFields_encodeFields
    [(4, (preferredLeft a now).toNat), (4, (lifeLeft a.validUntil now).toNat), (4, 0), (4, 0)]
    (by simp; omega) []
  simp only [List.map_cons, List.map_nil, decodeFields, List.append_nil, List.cons.injEq] at fields
  rw [leaseOf, addrRequest, requestOf, found, Option.map_some, fields.1, fields.2.1]

theorem restoreAddr_leases (a : NetsnapAddr) (now talked : Int) (ifindex : UInt32) :
    (restoreAddr now talked a ifindex).2.map leaseOf =
      if lifeLeft a.validUntil now = 0 then []
      else [some ((preferredLeft a now).toNat, (lifeLeft a.validUntil now).toNat)] := by
  rw [restoreAddr_eq]
  split
  · rfl
  · rw [← leaseOf_addrRequest a now ifindex]
    rfl

/-- A lease that is restored means what it meant: it lasts as long as is left of it. -/
structure LeaseKept (a : NetsnapAddr) (now : Int) (sent : List RtnlReq) : Prop where
  forever : a.validUntil = 0 → ∃ preferred, sent.map leaseOf = [some (preferred, LIFE_FOREVER)]
  expired : a.validUntil ≠ 0 → a.validUntil ≤ now → sent = []
  left : a.validUntil ≠ 0 → now < a.validUntil → ∃ preferred valid : ℕ,
    sent.map leaseOf = [some (preferred, valid)] ∧ valid ≠ LIFE_FOREVER ∧
      (valid : Int) ≤ a.validUntil - now ∧
      (a.validUntil - now < LIFE_FOREVER → (valid : Int) = a.validUntil - now)
  preferred : ∀ preferred valid, some (preferred, valid) ∈ sent.map leaseOf → preferred ≤ valid

theorem restoreAddr_ordered (a : NetsnapAddr) (now talked : Int) (ifindex : UInt32)
    {preferred valid : ℕ}
    (member : some (preferred, valid) ∈ (restoreAddr now talked a ifindex).2.map leaseOf) :
    preferred ≤ valid := by
  rw [restoreAddr_leases] at member
  split at member
  · simp at member
  · simp only [List.mem_singleton, Option.some.injEq, Prod.mk.injEq] at member
    rw [member.1, member.2]
    exact preferredLeft_le a now

/-- A lease keeps its meaning unless what is left of it, in 32 bits, reads as run out or as
unlimited. -/
theorem restoreAddr_lease_iff (a : NetsnapAddr) (now talked : Int) (ifindex : UInt32) :
    LeaseKept a now (restoreAddr now talked a ifindex).2 ↔
      a.validUntil = 0 ∨ a.validUntil ≤ now ∨
        (a.validUntil - now) % 2 ^ 32 ≠ 0 ∧ (a.validUntil - now) % 2 ^ 32 ≠ LIFE_FOREVER := by
  have leases := restoreAddr_leases a now talked ifindex
  have order (preferred valid : ℕ) :=
    @restoreAddr_ordered a now talked ifindex preferred valid
  by_cases unlimited : a.validUntil = 0
  · have life : lifeLeft a.validUntil now = UInt32.ofNat LIFE_FOREVER := by
      rw [lifeLeft, if_pos unlimited]
    rw [life, if_neg (by decide)] at leases
    exact iff_of_true ⟨fun _ => ⟨_, leases⟩, fun limited => absurd unlimited limited,
      fun limited => absurd unlimited limited, order⟩ (Or.inl unlimited)
  · by_cases out : a.validUntil ≤ now
    · have life : lifeLeft a.validUntil now = 0 := by
        rw [lifeLeft, if_neg unlimited, if_neg (by omega)]
      rw [life, if_pos rfl] at leases
      exact iff_of_true ⟨fun forever => absurd forever unlimited, fun _ _ => List.map_eq_nil_iff.mp leases,
        fun _ left => absurd out (by omega), order⟩ (Or.inr (Or.inl out))
    · have life := lifeLeft_of_left unlimited (Int.not_le.mp out)
      rw [or_iff_right unlimited, or_iff_right out]
      by_cases dropped : lifeLeft a.validUntil now = 0
      · rw [if_pos dropped] at leases
        rw [dropped, UInt32.toNat_zero] at life
        refine iff_of_false (fun kept => ?_) fun nonzero => nonzero.1 (by omega)
        obtain ⟨preferred, valid, restored, -⟩ := kept.left unlimited (by omega)
        rw [leases] at restored
        simp at restored
      · have nonzero : (lifeLeft a.validUntil now).toNat ≠ 0 := fun zero =>
          dropped (UInt32.toNat_inj.mp zero)
        rw [if_neg dropped] at leases
        constructor
        · intro kept
          obtain ⟨preferred, valid, restored, finite, -⟩ := kept.left unlimited (by omega)
          rw [leases] at restored
          simp only [List.cons.injEq, Option.some.injEq, Prod.mk.injEq, and_true] at restored
          rw [← restored.2] at finite
          exact ⟨by omega, by omega⟩
        · rintro ⟨-, finite⟩
          refine ⟨fun forever => absurd forever unlimited, fun _ expired => absurd expired out,
            fun _ _ => ⟨_, _, leases, ?_, ?_, ?_⟩, order⟩
          · omega
          · omega
          · intro small
            rw [LIFE_FOREVER] at small
            omega

def leaseAddr : NetsnapAddr := ⟨.inet, 24, #v[10, 0, 0, 3], none, 4294968296, 0⟩

def leaseText : List Char :=
  ("link 0000:01:00.0 eth0 52:54:0:12:34:56 1500\n" ++
    "addr 0000:01:00.0 10.0.0.3/24 - 4294968296 forever\n").toList

def leaseSnap : Netsnap := ⟨[
  { pci := "0000:01:00.0".toList
    name := "eth0".toList
    mac := ⟨0x52, 0x54, 0x00, 0x12, 0x34, 0x56⟩
    mtu := 1500
    ifindex := 0
    addrs := [leaseAddr]
    routes := [] }]⟩

/-- Restored 1000 seconds into the epoch it is dropped, a second later it never ends. -/
theorem lease_misread :
    netsnapParse textInet leaseText = .ok leaseSnap ∧ leaseAddr ∈ leaseSnap.links.flatMap (·.addrs) ∧
      (restoreAddr 1000 0 leaseAddr 7).2 = [] ∧
      (restoreAddr 1001 0 leaseAddr 7).2.map leaseOf = [some (LIFE_FOREVER, LIFE_FOREVER)] ∧
      ¬ LeaseKept leaseAddr 1000 (restoreAddr 1000 0 leaseAddr 7).2 ∧
      ¬ LeaseKept leaseAddr 1001 (restoreAddr 1001 0 leaseAddr 7).2 := by
  have dropped : (restoreAddr 1000 0 leaseAddr 7).2 = [] := by decide +kernel
  have unlimited : (restoreAddr 1001 0 leaseAddr 7).2.map leaseOf =
      [some (LIFE_FOREVER, LIFE_FOREVER)] := by decide +kernel
  refine ⟨by decide +kernel, by decide +kernel, dropped, unlimited, fun kept => ?_, fun kept => ?_⟩
  · obtain ⟨preferred, valid, restored, -⟩ := kept.left (by decide) (by decide)
    rw [dropped] at restored
    simp at restored
  · obtain ⟨preferred, valid, restored, finite, -⟩ := kept.left (by decide) (by decide)
    rw [unlimited] at restored
    simp only [List.cons.injEq, Option.some.injEq, Prod.mk.injEq, and_true] at restored
    exact finite restored.2.symm

end Kmorph
