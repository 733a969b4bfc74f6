import Kmorph.CollectCore
import Kmorph.RequestCore

/-!
Executable model of `kmorph watch`, `kmorph/watch.c`: the loop of `watch_run` one
system call at a time, beside a network configuration that changes at any moment
and tells the netlink socket.
-/

namespace Kmorph

/-- The request `send_text` builds for a text; `client_request` sends all of it. -/
def textRequest (text : List Char) : Except Int (List Char) :=
  let size := 64 + NETSNAP_TEXT_MAX
  match requestFormatNetwork text.length size with
  | .error _ => .error (-E2BIG)
  | .ok head => if head.length + text.length ≥ size then .error (-E2BIG) else .ok (head ++ text)

/-- `netsnap_text` of a kernel that answers as `m` does: the number of interfaces and the text. -/
def netsnapText (inet : Inet) (m : NetMachine) (skip : List (List Char)) (len : ℕ) :
    Except Int (ℕ × List Char) := do
  let snap ← netsnapCollect m skip
  let text ← netsnapFormat inet snap len
  return (snap.links.length, text)

/-- What comes of a request at the successor and at the client. `kmorphd` answers `ok network` only
to an identity it has taken. -/
structure Delivery where
  accepted : Bool
  client : Except Int (List Char)
  honest : ∀ reply, client = .ok reply → (requestParseNetworkReply reply 96).1 = 0 → accepted = true

def sendText (text : List Char) (delivery : Delivery) : Except Int Unit := do
  let _ ← textRequest text
  let reply ← delivery.client
  let ret := (requestParseNetworkReply reply 96).1
  if ret ≠ 0 then throw ret

/-- Instance 0 is this kernel's record of its own host, not a kernel it runs. -/
structure InstanceId where
  val : UInt32
  other : val ≠ 0

/-- Where `watch_run` is. `waiting` is the first poll of `wait_change`; a drain of the settle loop
carries the time it has settled for. -/
inductive WatchPoint
  | pass
  | collecting
  | lookup (links : ℕ)
  | sending (links : ℕ)
  | waiting
  | draining (settled : Option ℕ)
  | settling (settled : ℕ)
deriving Repr, DecidableEq

/-- A text an instance accepted from the watcher, and whether the watcher was told so. -/
structure Taken where
  id : UInt32
  text : List Char
  acked : Bool
deriving Repr, DecidableEq

/-- `config`, `queued` and `overrun` are the network and the netlink socket, and `changed` says that
the configuration changed since the snapshot was begun. `taken` lists what the instances accepted. -/
structure Watch where
  config : NetMachine
  queued : ℕ
  overrun : Bool
  changed : Bool
  point : WatchPoint
  now : List Char
  id : UInt32
  sent : List Char
  sentTo : UInt32
  ret : Except Int ℕ
  taken : List Taken

/-- Subscribed, and before the first snapshot. -/
def watchInit (config : NetMachine) (id : UInt32) : Watch where
  config := config
  queued := 0
  overrun := false
  changed := false
  point := .pass
  now := []
  id := id
  sent := []
  sentTo := 0
  ret := .ok 0
  taken := []

/-- What the watcher's next system call meets: how a snapshot fails or, if the configuration changes
under it, what it sees; the instance id; the request; and whether a poll returns without an event. -/
structure WatchAnswers where
  failure : Option Int
  seen : NetMachine
  lookup : Except Int InstanceId
  delivery : Delivery
  expired : Bool

inductive WatchEvent
  | change (config : NetMachine) (overrun : Bool)
  | watcher (a : WatchAnswers)

def SETTLE_MS : ℕ := 100
def SETTLE_MAX_MS : ℕ := 1000

namespace Watch

/-- Every change queues an event, or the overrun of a queue that is full. -/
def change (config : NetMachine) (overrun : Bool) (s : Watch) : Watch :=
  { s with
    config := config
    changed := true
    queued := if overrun then s.queued else s.queued + 1
    overrun := s.overrun || overrun }

def ready (s : Watch) : Bool := 0 < s.queued || s.overrun

/-- The end of a pass. -/
def wait (ret : Except Int ℕ) (s : Watch) : Watch := { s with ret := ret, point := .waiting }

/-- A snapshot sees the configuration as it is, unless it changes meanwhile. -/
def collect (inet : Inet) (skip : List (List Char)) (a : WatchAnswers) (s : Watch) : Watch :=
  match a.failure with
  | some errno => s.wait (.error errno)
  | none =>
      match netsnapText inet (if s.changed then a.seen else s.config) skip NETSNAP_TEXT_MAX with
      | .error ret => s.wait (.error ret)
      | .ok (links, text) => { s with now := text, point := .lookup links }

def unsent (s : Watch) : Bool := s.id ≠ s.sentTo || s.now ≠ s.sent

def send (links : ℕ) (delivery : Delivery) (s : Watch) : Watch :=
  if s.unsent then
    let ret := sendText s.now delivery
    let took : Taken := ⟨s.id, s.now, ret.toOption.isSome⟩
    let reached := (textRequest s.now).toOption.isSome && delivery.accepted
    let s := { s with taken := if reached then s.taken ++ [took] else s.taken }
    match ret with
    | .error ret => s.wait (.error ret)
    | .ok _ => { s with sent := s.now, sentTo := s.id }.wait (.ok 0)
  else s.wait (.ok links)

/-- One `recv` of `drain`. The overrun is reported first, once, and ends it. -/
def recv (settled : Option ℕ) (s : Watch) : Watch :=
  let done := .settling ((settled.map (· + SETTLE_MS)).getD 0)
  if s.overrun then { s with overrun := false, point := done }
  else if 0 < s.queued then { s with queued := s.queued - 1 }
  else { s with point := done }

/-- A poll: it returns without an event at `back`, with one at `on`, or still blocks. -/
def poll (expired : Bool) (back on : WatchPoint) (s : Watch) : Watch :=
  if expired then { s with point := back } else if s.ready then { s with point := on } else s

def step (inet : Inet) (skip : List (List Char)) (a : WatchAnswers) (s : Watch) : Watch :=
  match s.point with
  | .pass => { s with changed := false, point := .collecting }
  | .collecting => s.collect inet skip a
  | .lookup links =>
      match a.lookup with
      | .error _ => s.wait (.error (-ENOENT))
      | .ok id => { s with id := id.val, point := .sending links }
  | .sending links => s.send links a.delivery
  | .waiting => s.poll a.expired .pass (.draining none)
  | .draining settled => s.recv settled
  | .settling settled =>
      if settled < SETTLE_MAX_MS then s.poll a.expired .pass (.draining (some settled))
      else { s with point := .pass }

end Watch

def watchStep (inet : Inet) (skip : List (List Char)) (s : Watch) : WatchEvent → Watch
  | .change config overrun => s.change config overrun
  | .watcher a => s.step inet skip a

def watchRun (inet : Inet) (skip : List (List Char)) (s : Watch) (events : List WatchEvent) : Watch :=
  events.foldl (watchStep inet skip) s

end Kmorph
