import Kmorph.Collect
import Kmorph.Rtnl
import Kmorph.RtnlSocketCore

/-!
What a request is answered does not depend on how the kernel packs the messages into
datagrams, on what else comes in over the socket, or on interruptions; and a dump of
bytes is the dump of the messages they stand for.
-/

namespace Kmorph.Rtnl

open Extents Records

structure NlMsg where
  type : ℕ
  flags : ℕ
  seq : ℕ
  pid : ℕ
  body : List UInt8
  narrow : type < 2 ^ 16 ∧ flags < 2 ^ 16
  wide : seq < 2 ^ 32 ∧ pid < 2 ^ 32
  short : NLMSGHDR_SIZE + body.length < 2 ^ 32

namespace NlMsg

def len (m : NlMsg) : ℕ := NLMSGHDR_SIZE + m.body.length

def fields (m : NlMsg) : List (ℕ × ℕ) := [(4, m.len), (2, m.type), (2, m.flags), (4, m.seq), (4, m.pid)]

def bytes (m : NlMsg) : List UInt8 := encodeFields m.fields ++ m.body

def padding (m : NlMsg) : List UInt8 := List.replicate (align4 m.len - m.len) 0

def encode (m : NlMsg) : List UInt8 := m.bytes ++ m.padding

/-- What the message makes of the request, if it ends the reply. -/
def verdict (m : NlMsg) : Option Int :=
  if m.type = NLMSG_DONE then some 0
  else if m.type = NLMSG_ERROR then some (toInt (field m.body 0 4))
  else none

def Whole (m : NlMsg) : Prop := m.type = NLMSG_ERROR → 4 ≤ m.body.length

variable (m : NlMsg)

theorem length_bytes : m.bytes.length = m.len := by
  rw [bytes, List.length_append, length_encodeFields]
  rfl

theorem length_encode : m.encode.length = align4 m.len := by
  have := (align4_bounds m.len).1
  rw [encode, List.length_append, length_bytes, padding, List.length_replicate]
  omega

theorem header_le : NLMSGHDR_SIZE ≤ m.len := Nat.le_add_right _ _

end NlMsg

section Header

variable {buf front rest before after : List UInt8} {m : NlMsg} {off : ℕ}

theorem field_middle {f : ℕ × ℕ} (starts : before.length = off) (fits : f.2 < 256 ^ f.1) :
    field (before ++ (encodeField f ++ after)) off f.1 = f.2 := by
  rw [field_eq, cells_middle starts (length_encodeField f), decodeField_encodeField fits]

structure MessageAt (buf : List UInt8) (off : ℕ) (m : NlMsg) : Prop where
  len : field buf off 4 = m.len
  type : field buf (off + 4) 2 = m.type
  seq : field buf (off + 8) 4 = m.seq
  bytes : cells buf off m.len = m.bytes
  error : 4 ≤ m.body.length → off + HDRLEN + 4 ≤ buf.length ∧ field buf (off + HDRLEN) 4 = field m.body 0 4

theorem messageAt_split (split : buf = front ++ (m.encode ++ rest)) : MessageAt buf front.length m := by
  have parts : m.encode = encodeField (4, m.len) ++ (encodeField (2, m.type) ++ (encodeField (2, m.flags) ++
      (encodeField (4, m.seq) ++ (encodeField (4, m.pid) ++ (m.body ++ m.padding))))) := by
    simp [NlMsg.encode, NlMsg.bytes, NlMsg.fields, encodeFields]
  obtain ⟨⟨narrow, -⟩, ⟨wide, -⟩, short⟩ := And.intro m.narrow (And.intro m.wide m.short)
  refine ⟨?_, ?_, ?_, ?_, fun number => ⟨?_, ?_⟩⟩
  · rw [split, parts, List.append_assoc]
    exact @field_middle _ _ _ (4, m.len) rfl short
  · have regroup : buf = (front ++ encodeField (4, m.len)) ++ (encodeField (2, m.type) ++
        (encodeField (2, m.flags) ++ (encodeField (4, m.seq) ++ (encodeField (4, m.pid) ++ (m.body ++ m.padding))) ++
          rest)) := by
      rw [split, parts]
      simp
    rw [regroup]
    exact @field_middle _ _ _ (2, m.type) (by simp) narrow
  · have regroup : buf = (front ++ encodeField (4, m.len) ++ encodeField (2, m.type) ++ encodeField (2, m.flags)) ++
        (encodeField (4, m.seq) ++ (encodeField (4, m.pid) ++ (m.body ++ m.padding) ++ rest)) := by
      rw [split, parts]
      simp
    rw [regroup]
    exact @field_middle _ _ _ (4, m.seq) (by simp) wide
  · rw [split, NlMsg.encode, List.append_assoc]
    exact cells_middle rfl m.length_bytes
  · have := m.length_encode
    have := (align4_bounds m.len).1
    rw [split, List.length_append, List.length_append, m.length_encode]
    simp only [NlMsg.len, NLMSGHDR_SIZE] at *
    change front.length + 16 + 4 ≤ _
    omega
  · have regroup : buf = (front ++ encodeFields m.fields) ++ (m.body ++ (m.padding ++ rest)) := by
      rw [split, NlMsg.encode, NlMsg.bytes]
      simp
    have starts : (front ++ encodeFields m.fields).length = front.length + HDRLEN := by
      rw [List.length_append, length_encodeFields]
      rfl
    rw [regroup, field, List.drop_left' starts, List.take_append_of_le_length number, field, List.drop_zero]

end Header

/-! The reply. -/

section Reply

variable {σ : Type} {seq : ℕ} {cb : σ → List UInt8 → Except Int σ}

/-- What `receive` makes of messages, however they come. -/
def process (seq : ℕ) (cb : σ → List UInt8 → Except Int σ) : List NlMsg → σ → Scanned σ
  | [], s => .more s
  | m :: rest, s =>
      if m.seq ≠ seq then process seq cb rest s
      else
        match m.verdict with
        | some ret => .returned (conclude ret s)
        | none =>
            match cb s m.bytes with
            | .error ret => .returned (.error ret)
            | .ok s => process seq cb rest s

theorem process_append (ms more : List NlMsg) (s : σ) :
    process seq cb (ms ++ more) s =
      match process seq cb ms s with
      | .returned out => .returned out
      | .more s => process seq cb more s := by
  induction ms generalizing s with
  | nil => rfl
  | cons m ms ih =>
      rw [List.cons_append, process, process]
      by_cases own : m.seq ≠ seq
      · rw [if_pos own, if_pos own, ih]
      · rw [if_neg own, if_neg own]
        cases m.verdict with
        | some ret => rfl
        | none =>
            cases cb s m.bytes with
            | error ret => rfl
            | ok s => exact ih s

theorem scan_process {packet : List NlMsg} (whole : ∀ m ∈ packet, m.Whole) {buf front tail : List UInt8} {n : ℕ}
    (split : buf = front ++ (packet.flatMap NlMsg.encode ++ tail))
    (ends : n = front.length + (packet.flatMap NlMsg.encode).length) (s : σ) :
    scan seq cb buf n front.length s = some (process seq cb packet s) := by
  induction packet generalizing front s with
  | nil =>
      rw [scan, if_neg (by rw [ends]; simp [NLMSGHDR_SIZE])]
      rfl
  | cons m packet ih =>
      obtain ⟨first, others⟩ := List.forall_mem_cons.mp whole
      have regroup : buf = front ++ (m.encode ++ (packet.flatMap NlMsg.encode ++ tail)) := by
        rw [split, List.flatMap_cons, List.append_assoc]
      have here := messageAt_split regroup
      have size := m.length_encode
      have header := m.header_le
      have room := (align4_bounds m.len).1
      rw [List.flatMap_cons, List.length_append] at ends
      have next (s : σ) : scan seq cb buf n (front.length + align4 m.len) s = some (process seq cb packet s) := by
        have later := @ih others (front ++ m.encode) (by rw [regroup]; simp)
          (by rw [List.length_append]; omega) s
        rwa [List.length_append, size] at later
      rw [scan, if_pos (by omega)]
      simp only [here.len, here.seq, here.type, here.bytes, next]
      rw [if_neg (by omega), process]
      by_cases own : m.seq ≠ seq
      · rw [if_pos own, if_pos own]
      · rw [if_neg own, if_neg own, NlMsg.verdict]
        by_cases done : m.type = NLMSG_DONE
        · rw [if_pos done, if_pos done]
          rfl
        · rw [if_neg done, if_neg done]
          by_cases failed : m.type = NLMSG_ERROR
          · obtain ⟨inside, number⟩ := here.error (first failed)
            rw [if_pos failed, if_pos failed, if_pos inside, number]
          · rw [if_neg failed, if_neg failed]
            cases cb s m.bytes with
            | error ret => rfl
            | ok s => rfl

/-- The answers carry these messages, in some packing, with interruptions between the datagrams. -/
inductive Packed : List RecvAnswer → List NlMsg → Prop
  | nil : Packed [] []
  | interrupted {answers : List RecvAnswer} {ms : List NlMsg} (packed : Packed answers ms) :
      Packed (.interrupted :: answers) ms
  | datagram {answers : List RecvAnswer} {ms : List NlMsg} (packet : List NlMsg)
      (fits : (packet.flatMap NlMsg.encode).length ≤ RECV_MAX) (packed : Packed answers ms) :
      Packed (.datagram (packet.flatMap NlMsg.encode) :: answers) (packet ++ ms)

theorem receive_process {answers : List RecvAnswer} {ms : List NlMsg} (packed : Packed answers ms)
    (whole : ∀ m ∈ ms, m.Whole) (buf : List UInt8) (s : σ) :
    receive seq cb answers buf s =
      match process seq cb ms s with
      | .returned out => some out
      | .more _ => none := by
  induction packed generalizing buf s with
  | nil => rfl
  | interrupted packed ih => exact ih whole buf s
  | @datagram answers ms packet fits packed ih =>
      obtain ⟨inPacket, later⟩ := List.forall_mem_append.mp whole
      have scanned := @scan_process σ seq cb packet inPacket
        (packet.flatMap NlMsg.encode ++ buf.drop (packet.flatMap NlMsg.encode).length) [] _ _ rfl rfl s
      rw [List.length_nil, Nat.zero_add] at scanned
      rw [receive, process_append]
      simp only [List.take_of_length_le fits, scanned]
      cases process seq cb packet s with
      | returned out => rfl
      | more s => exact ih later _ s

theorem process_reply {ms plain behind : List NlMsg} {last : NlMsg} {ret : Int}
    (own : ms.filter (·.seq = seq) = plain ++ last :: behind) (plainly : ∀ m ∈ plain, m.verdict = none)
    (ends : last.verdict = some ret) (s : σ) :
    process seq cb ms s = .returned ((plain.map NlMsg.bytes).foldlM cb s >>= conclude ret) := by
  induction ms generalizing plain s with
  | nil => simp at own
  | cons m ms ih =>
      rw [process]
      by_cases mine : m.seq = seq
      · rw [List.filter_cons_of_pos (by simpa using mine)] at own
        rw [if_neg (not_not.mpr mine)]
        cases plain with
        | nil =>
            obtain ⟨rfl, -⟩ := List.cons.inj own
            rw [ends]
            rfl
        | cons first plain =>
            obtain ⟨rfl, others⟩ := List.cons.inj own
            obtain ⟨none, plainly⟩ := List.forall_mem_cons.mp plainly
            rw [none, List.map_cons, List.foldlM_cons]
            cases cb s m.bytes with
            | error ret => rfl
            | ok s => exact ih others plainly s
      · rw [List.filter_cons_of_neg (by simpa using mine)] at own
        rw [if_pos mine]
        exact ih own plainly s

end Reply

/-- The reply to a request, somewhere among what comes in: these messages, and then how it ended. -/
structure Reply (env : DumpEnv) (plain : List NlMsg) (ret : Int) : Prop where
  sent : 0 ≤ env.sent
  reply : ∃ ms last behind, Packed env.answers ms ∧ (∀ m ∈ ms, m.Whole) ∧
    ms.filter (·.seq = env.seq) = plain ++ last :: behind ∧ (∀ m ∈ plain, m.verdict = none) ∧ last.verdict = some ret

theorem Reply.dump {σ : Type} {env : DumpEnv} {plain : List NlMsg} {ret : Int} (reply : Reply env plain ret)
    (cb : σ → List UInt8 → Except Int σ) (s : σ) :
    env.dump cb s = some ((plain.map NlMsg.bytes).foldlM cb s >>= conclude ret) := by
  obtain ⟨sent, ms, last, behind, packed, whole, own, plainly, ends⟩ := reply
  rw [DumpEnv.dump, if_neg (Int.not_lt.mpr sent), receive_process packed whole, process_reply own plainly ends]

theorem rtnlTalkOn_reply {env : DumpEnv} {plain : List NlMsg} {ret : Int} (reply : Reply env plain ret) :
    rtnlTalkOn env.seq env.sent env.answers env.buf = some ret := by
  have passed : (plain.map NlMsg.bytes).foldlM (fun s _ => Except.ok s) () = @Except.ok Int Unit () := by
    induction plain.map NlMsg.bytes with
    | nil => rfl
    | cons h hs ih => exact ih
  have answered := reply.dump (fun s _ => .ok s) ()
  rw [passed, DumpEnv.dump, if_neg (Int.not_lt.mpr reply.sent)] at answered
  have concluded : (Except.ok () >>= conclude ret) = conclude ret () := rfl
  rw [rtnlTalkOn, if_neg (Int.not_lt.mpr reply.sent), answered, concluded, conclude]
  by_cases failed : ret ≠ 0
  · rw [if_pos failed]
    rfl
  · rw [if_neg failed, not_not.mp failed]
    rfl

section Collect

theorem attrLoop_walk (h : List UInt8) (type stop p : ℕ) :
    (attrLoop h type stop p).map (rtnlAttrData h) = Kmorph.rtnlAttr (attrsWalk h stop p) type := by
  fun_induction attrLoop h type stop p with
  | case1 p inside len bad =>
      rw [attrsWalk, if_pos inside]
      simp only
      rw [if_pos bad]
      rfl
  | case2 p inside len good same =>
      rw [attrsWalk, if_pos inside]
      simp only
      rw [if_neg good, Kmorph.rtnlAttr, List.find?_cons_of_pos (by simpa using same)]
      rfl
  | case3 p inside len good other ih =>
      rw [attrsWalk, if_pos inside]
      simp only
      rw [if_neg good, Kmorph.rtnlAttr, List.find?_cons_of_neg (by simpa using other)]
      exact ih
  | case4 p outside =>
      rw [attrsWalk, if_neg outside]
      rfl

theorem rtnlAttr_attrsOf (h : List UInt8) (hdrlen type : ℕ) :
    (rtnlAttr h hdrlen type).map (rtnlAttrData h) = Kmorph.rtnlAttr (attrsOf h hdrlen) type :=
  attrLoop_walk h type _ _

theorem foldlM_collectAddrAt (clock : ℕ → ℕ) (hs : List (List UInt8)) (i : ℕ) (s : Netsnap) :
    hs.foldlM (collectAddrAt clock) (i, s) =
      ((hs.mapIdx fun j h => addrMsg (clock (i + j)) h).foldlM collectAddr s).map fun s => (i + hs.length, s) := by
  induction hs generalizing i s with
  | nil => rfl
  | cons h hs ih =>
      have later : (fun j h => addrMsg (clock (i + (j + 1))) h) = fun j h => addrMsg (clock (i + 1 + j)) h := by
        funext j h
        rw [Nat.add_assoc i 1, Nat.add_comm 1]
      rw [List.foldlM_cons, List.mapIdx_cons, List.foldlM_cons, collectAddrAt, Nat.add_zero]
      cases collectAddr s (addrMsg (clock i) h) with
      | error ret => rfl
      | ok s =>
          refine (ih (i + 1) s).trans ?_
          rw [later, List.length_cons, Nat.add_assoc i 1, Nat.add_comm 1]
          rfl

theorem bind_conclude {μ : Type} (messages : List μ) (ret : Int) (cb : Netsnap → μ → Except Int Netsnap) (s : Netsnap) :
    (messages.foldlM cb s >>= conclude ret) = rtnlDump ⟨messages, ret⟩ cb s := by
  rw [rtnlDump]
  cases messages.foldlM cb s with
  | error ret => rfl
  | ok s => rfl

theorem collectDumps_reply {clock : ℕ → ℕ} {addrs routes : DumpEnv} {addrMsgs routeMsgs : List NlMsg}
    {addrRet routeRet : Int} (addrReply : Reply addrs addrMsgs addrRet) (routeReply : Reply routes routeMsgs routeRet)
    (s : Netsnap) :
    collectDumps clock addrs routes s = some (
      match rtnlDump ⟨(addrMsgs.map NlMsg.bytes).mapIdx fun i h => addrMsg (clock i) h, addrRet⟩ collectAddr s with
      | .error ret => .error ret
      | .ok s => rtnlDump ⟨(routeMsgs.map NlMsg.bytes).map routeMsg, routeRet⟩ collectRoute s) := by
  rw [collectDumps, addrReply.dump, foldlM_collectAddrAt, ← bind_conclude]
  simp only [Nat.zero_add, Option.bind_eq_bind, Option.bind_some]
  cases (List.mapIdx (fun i h => addrMsg (clock i) h) (addrMsgs.map NlMsg.bytes)).foldlM collectAddr s with
  | error ret => rfl
  | ok s =>
      by_cases failed : addrRet ≠ 0
      · simp only [Except.map, bind, Except.bind, conclude, if_pos failed]
        rfl
      · simp only [Except.map, bind, Except.bind, conclude, if_neg failed]
        rw [routeReply.dump, ← bind_conclude]
        simp only [List.foldlM_map]

end Collect

/-- The network identity that is collected over the socket is the one that is collected from the messages
themselves: in whatever datagrams they come, however often the calls are interrupted, and whatever else
the kernel sends. The attributes of a message are those that `rtnl_attr` finds. -/
theorem netsnapCollectOn_packed (m : NetMachine) (skip : List (List Char)) (clock : ℕ → ℕ) (addrs routes : DumpEnv)
    (addrMsgs routeMsgs : List NlMsg) (addrRet routeRet : Int) (addrReply : Reply addrs addrMsgs addrRet)
    (routeReply : Reply routes routeMsgs routeRet)
    (sameAddrs : m.addrs = ⟨(addrMsgs.map NlMsg.bytes).mapIdx fun i h => addrMsg (clock i) h, addrRet⟩)
    (sameRoutes : m.routes = ⟨(routeMsgs.map NlMsg.bytes).map routeMsg, routeRet⟩) :
    netsnapCollectOn m.fs m.opened m.socket clock addrs routes skip = some (netsnapCollect m skip) ∧
      ∀ h hdrlen type, (rtnlAttr h hdrlen type).map (rtnlAttrData h) = Kmorph.rtnlAttr (attrsOf h hdrlen) type := by
  refine ⟨?_, rtnlAttr_attrsOf⟩
  rw [netsnapCollectOn, netsnapCollect]
  split
  · rfl
  · simp only
    split
    · rfl
    · split
      · rfl
      · rw [sameAddrs, sameRoutes]
        exact collectDumps_reply addrReply routeReply _

def sampleAddr : NlMsg where
  type := RTM_NEWADDR
  flags := 2
  seq := 7
  pid := 0
  body := [2, 24, 0, 0, 2, 0, 0, 0, 8, 0, 2, 0, 10, 0, 0, 2]
  narrow := by decide
  wide := by decide
  short := by decide

def sampleDone (seq : ℕ) (wide : seq < 2 ^ 32) : NlMsg where
  type := NLMSG_DONE
  flags := 2
  seq := seq
  pid := 0
  body := [0, 0, 0, 0]
  narrow := by decide
  wide := ⟨wide, by decide⟩
  short := by decide

/-- Behind an interruption, the end of an older request and the address in one datagram, and the end of
the dump in another. -/
def addrDump : DumpEnv where
  seq := 7
  sent := 20
  answers := [.interrupted, .datagram ([sampleDone 6 (by decide), sampleAddr].flatMap NlMsg.encode),
    .datagram ([sampleDone 7 (by decide)].flatMap NlMsg.encode)]
  buf := []

def routeDump : DumpEnv where
  seq := 8
  sent := 20
  answers := [.datagram ([sampleDone 8 (by decide)].flatMap NlMsg.encode)]
  buf := []

theorem addrDump_reply : Reply addrDump [sampleAddr] 0 := by
  refine ⟨by decide, _, sampleDone 7 (by decide), [], .interrupted (.datagram _ ?_ (.datagram _ ?_ .nil)), ?_, ?_, ?_, ?_⟩
  · decide
  · decide
  · simp [NlMsg.Whole, sampleDone, sampleAddr, NLMSG_DONE, NLMSG_ERROR, RTM_NEWADDR]
  · simp [sampleDone, sampleAddr, addrDump]
  · simp [NlMsg.verdict, sampleAddr, NLMSG_DONE, NLMSG_ERROR, RTM_NEWADDR]
  · simp [NlMsg.verdict, sampleDone]

theorem routeDump_reply : Reply routeDump [] 0 := by
  refine ⟨by decide, _, sampleDone 8 (by decide), [], .datagram _ ?_ .nil, ?_, ?_, ?_, ?_⟩
  · decide
  · simp [NlMsg.Whole, sampleDone, NLMSG_DONE, NLMSG_ERROR]
  · simp [sampleDone, routeDump]
  · simp
  · simp [NlMsg.verdict, sampleDone]

theorem netsnapCollectOn_packed_sample :
    Reply addrDump [sampleAddr] 0 ∧ Reply routeDump [] 0 ∧
      netsnapCollectOn (twoPorts "0000:01:00.1".toList).fs 0 3 (fun _ => 1000) addrDump routeDump [] =
        some (netsnapCollect (twoPorts "0000:01:00.1".toList) []) := by
  have shown : (twoPorts "0000:01:00.1".toList).addrs.messages =
      ([sampleAddr].map NlMsg.bytes).mapIdx fun _ h => addrMsg 1000 h := by decide +kernel
  refine ⟨addrDump_reply, routeDump_reply, ?_⟩
  exact (netsnapCollectOn_packed (twoPorts "0000:01:00.1".toList) [] _ addrDump routeDump _ _ _ _ addrDump_reply
    routeDump_reply (congrArg (RtnlAnswer.mk · 0) shown) rfl).1

end Kmorph.Rtnl
