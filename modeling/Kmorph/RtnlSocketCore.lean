import Kmorph.CollectCore
import Kmorph.RtnlCore

/-!
Executable model of the socket of `lib/rtnl.c`: how the replies to a request are
taken out of the datagrams that the kernel sends, and of the messages of a dump as
`lib/netsnap.c` reads them. A call that waits for ever, or reads outside its buffer,
is `none`.
-/

namespace Kmorph.Rtnl

open Extents Records

def EBADMSG : Int := 74
def NLMSG_ERROR : ℕ := 2
def NLMSG_DONE : ℕ := 3
def NLMSGHDR_SIZE : ℕ := 16

/-- `sizeof(buf)` of `receive` -/
def RECV_MAX : ℕ := 32768

section Receive

inductive RecvAnswer
  | datagram (bytes : List UInt8)
  | interrupted
  | failed (errno : Int) (nonzero : errno ≠ 0)

/-- The loop over a datagram has come to an end of the call, or wants the next one. -/
inductive Scanned (σ : Type)
  | returned (out : Except Int σ)
  | more (s : σ)

variable {σ : Type} (seq : ℕ) (cb : σ → List UInt8 → Except Int σ)

def conclude (ret : Int) (s : σ) : Except Int σ := if ret ≠ 0 then .error ret else .ok s

/-- The loop over the first `n` bytes of the buffer, from `off` on. -/
def scan (buf : List UInt8) (n off : ℕ) (s : σ) : Option (Scanned σ) :=
  if off + NLMSGHDR_SIZE ≤ n then
    let len := field buf off 4
    if len < NLMSGHDR_SIZE ∨ off + len > n then some (.returned (.error (-EBADMSG)))
    else if field buf (off + 8) 4 ≠ seq then scan buf n (off + align4 len) s
    else if field buf (off + 4) 2 = NLMSG_DONE then some (.returned (.ok s))
    else if field buf (off + 4) 2 = NLMSG_ERROR then
      if off + HDRLEN + 4 ≤ buf.length then
        some (.returned (conclude (toInt (field buf (off + HDRLEN) 4)) s))
      else none
    else
      match cb s (cells buf off len) with
      | .error ret => some (.returned (.error ret))
      | .ok s => scan buf n (off + align4 len) s
  else some (.more s)
termination_by n - off
decreasing_by
  all_goals
    have : ¬ (field buf off 4 < NLMSGHDR_SIZE ∨ off + field buf off 4 > n) := ‹_›
    simp only [NLMSGHDR_SIZE, align4] at *
    omega

/-- The buffer is static: behind a datagram stands what came before. -/
def receive : List RecvAnswer → List UInt8 → σ → Option (Except Int σ)
  | [], _, _ => none
  | .interrupted :: answers, buf, s => receive answers buf s
  | .failed errno _ :: _, _, _ => some (.error (-errno))
  | .datagram bytes :: answers, buf, s =>
      let bytes := bytes.take RECV_MAX
      let buf := bytes ++ buf.drop bytes.length
      match scan seq cb buf bytes.length 0 s with
      | none => none
      | some (.returned out) => some out
      | some (.more s) => receive answers buf s

end Receive

def rtnlTalkOn (seq : ℕ) (sent : Int) (answers : List RecvAnswer) (buf : List UInt8) : Option Int :=
  if sent < 0 then some sent
  else
    (receive seq (fun s _ => .ok s) answers buf ()).map fun
      | .ok _ => 0
      | .error ret => ret

section Messages

/-- The attributes that `rtnl_attr` comes by, from offset `p` on. -/
def attrsWalk (h : List UInt8) (stop p : ℕ) : Attrs :=
  if p + RTATTR_SIZE ≤ stop then
    let len := field h p 2
    if len < RTATTR_SIZE ∨ p + len > stop then []
    else (field h (p + 2) 2, rtnlAttrData h p) :: attrsWalk h stop (p + align4 len)
  else []
termination_by stop - p
decreasing_by
  have : ¬ (field h p 2 < RTATTR_SIZE ∨ p + field h p 2 > stop) := ‹_›
  simp only [RTATTR_SIZE, align4] at *
  omega

def attrsOf (h : List UInt8) (hdrlen : ℕ) : Attrs := attrsWalk h (nlmsgLen h) (HDRLEN + align4 hdrlen)

def byteAt (h : List UInt8) (off : ℕ) : UInt8 := .ofNat (field h off 1)

/-- A message as `collect_addr` reads it: `struct ifaddrmsg` and its attributes. -/
def addrMsg (now : ℕ) (h : List UInt8) : AddrMsg where
  type := field h 4 2
  family := field h HDRLEN 1
  prefixlen := byteAt h (HDRLEN + 1)
  flags := byteAt h (HDRLEN + 2)
  scope := field h (HDRLEN + 3) 1
  index := .ofNat (field h (HDRLEN + 4) 4)
  attrs := attrsOf h 8
  now := now

/-- A message as `collect_route` reads it: `struct rtmsg` and its attributes. -/
def routeMsg (h : List UInt8) : RouteMsg where
  type := field h 4 2
  family := field h HDRLEN 1
  dstLen := byteAt h (HDRLEN + 1)
  srcLen := byteAt h (HDRLEN + 2)
  table := byteAt h (HDRLEN + 4)
  protocol := byteAt h (HDRLEN + 5)
  scope := byteAt h (HDRLEN + 6)
  rtmType := field h (HDRLEN + 7) 1
  attrs := attrsOf h 12

/-- `collect_addr` as it is called the `i`-th time; `clock` is the time it then finds. -/
def collectAddrAt (clock : ℕ → ℕ) (s : ℕ × Netsnap) (h : List UInt8) : Except Int (ℕ × Netsnap) :=
  (collectAddr s.2 (addrMsg (clock s.1) h)).map fun snap => (s.1 + 1, snap)

/-- What a dump meets: the number of its request, what sending it returns, what comes back, and what the
buffer held before. -/
structure DumpEnv where
  seq : ℕ
  sent : Int
  answers : List RecvAnswer
  buf : List UInt8

def DumpEnv.dump {σ : Type} (env : DumpEnv) (cb : σ → List UInt8 → Except Int σ) (s : σ) : Option (Except Int σ) :=
  if env.sent < 0 then some (.error env.sent) else receive env.seq cb env.answers env.buf s

/-- The two dumps of `netsnap_collect`. -/
def collectDumps (clock : ℕ → ℕ) (addrs routes : DumpEnv) (s : Netsnap) : Option (Except Int Netsnap) := do
  match ← addrs.dump (collectAddrAt clock) (0, s) with
  | .error ret => return .error ret
  | .ok (_, s) => routes.dump (fun s h => collectRoute s (routeMsg h)) s

/-- `netsnap_collect` down to the bytes: sysfs, the socket, and what comes in over it. -/
def netsnapCollectOn (fs : Sysfs) (opened socket : Int) (clock : ℕ → ℕ) (addrs routes : DumpEnv)
    (skip : List (List Char)) : Option (Except Int Netsnap) :=
  if opened ≠ 0 then some (.error opened)
  else
    let links := collectLinks fs skip fs.entries []
    if links = [] then some (.ok ⟨[]⟩)
    else if socket < 0 then some (.error socket)
    else collectDumps clock addrs routes ⟨links⟩

end Messages

end Kmorph.Rtnl
