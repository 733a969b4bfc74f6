import Kmorph.DaemonCore
import Kmorph.FreezeCore

/-!
Executable model of one `kmorph upgrade`, `kmorph/upgrade.c` with
`kmorph/client.c`, beside `kmorphd`. The two take steps in any order; what a
system call returns and how long a message is under way is part of the step.
-/

namespace Kmorph

/-- Where `upgrade_run` is: before the freeze, before `connect`, `send` and `recv`, in its ten
second wait, before the thaw, or returned. -/
inductive Client
  | starting
  | connecting
  | connected
  | waiting
  | sleeping
  | thawing (ret : Int)
  | returned (ret : Int)
deriving Repr, DecidableEq

inductive Link
  | absent
  | queued (sent : Bool)
  | served
deriving Repr, DecidableEq

/-- `accepted` between the answer of `kmorphd` and its `take_handover`. For the record, `agreed`
says that the request of this upgrade was accepted and `froze` what was frozen for it. -/
structure Upgrade (σ : Type) where
  client : Client
  set : List Path
  frozen : List Path
  link : Link
  reply : Option String
  daemon : Daemon σ
  accepted : Bool
  agreed : Bool
  froze : List Path

variable {σ : Type}

def upgradeInit (d : Daemon σ) : Upgrade σ where
  client := .starting
  set := []
  frozen := []
  link := .absent
  reply := none
  daemon := d
  accepted := false
  agreed := false
  froze := []

/-- A fence that succeeds stops the predecessor and with it `kmorph upgrade`. -/
def Upgrade.fenced (s : Upgrade σ) : Bool := s.daemon.history.contains (.called .fence 0)

/-- What `upgrade_run` meets before its request: whether the successor is armed, whether another
instance runs, the filesystems to freeze and the result of each freeze and thaw. -/
structure Preparation where
  instanceId : Int
  otherRunning : Int
  collected : Except Int (List Path)
  freeze : Path → Int
  thaw : Path → Int

def prepare (p : Preparation) (s : Upgrade σ) : Upgrade σ :=
  if p.instanceId ≠ 0 then { s with client := .returned (-ENOENT) }
  else if p.otherRunning > 0 then { s with client := .returned (-EBUSY) }
  else if p.otherRunning ≠ 0 then { s with client := .returned p.otherRunning }
  else
    match p.collected with
    | .error ret => { s with client := .returned ret }
    | .ok set =>
        let all := freezeAll p.freeze p.thaw set s.frozen
        let s := { s with frozen := all.2, froze := all.2 }
        if all.1 ≠ 0 then { s with client := .returned all.1 }
        else { s with client := .connecting, set := set }

def REASON_MAX : ℕ := 96

def receive (n : ℕ) (reply : String) (s : Upgrade σ) : Upgrade σ :=
  let got := reply.toList.take (min n (REPLY_MAX - 1))
  if got = [] then { s with client := .thawing (-ECONNRESET) }
  else
    let ret := (requestParseHandover got REASON_MAX).1
    if ret = 0 then { s with client := .sleeping } else { s with client := .thawing ret }

inductive ClientStep
  | prepare (p : Preparation)
  | connect (ret : Int)
  | send (ret : Int)
  | recv (n : ℕ)
  | recvFails (ret : Int)
  | wake
  | thaw (thaw : Path → Int)

/-- One system call of `upgrade_run`. A failed `connect` may still have queued the connection; a
failed `send` has sent nothing. -/
def clientStep (s : Upgrade σ) (step : ClientStep) : Upgrade σ :=
  match s.client, step with
  | .starting, .prepare p => prepare p s
  | .connecting, .connect ret =>
      { s with
        link := .queued false
        client := if ret = 0 then .connected else .thawing ret }
  | .connected, .send ret =>
      if ret = 0 then
        { s with
          link := if s.link = .queued false then .queued true else s.link
          client := .waiting }
      else { s with client := .thawing ret }
  | .waiting, .recv n =>
      match s.reply with
      | some reply => receive n reply s
      | none => s
  | .waiting, .recvFails ret => { s with client := .thawing ret }
  | .sleeping, .wake => { s with client := .thawing (-ETIMEDOUT) }
  | .thawing ret, .thaw thaw =>
      { s with client := .returned ret, frozen := thawAll thaw s.set s.frozen }
  | _, _ => s

def Recv.bytes : Recv → List Char
  | .data bytes => bytes
  | .timeout | .closed | .error _ => []

/-- The bytes of a connection are those sent on it, as far as they have arrived. -/
def deliverable (sent : Bool) (input : List Recv) : Bool :=
  (input.flatMap Recv.bytes).isPrefixOf (if sent then "handover\n".toList else [])

def sentSince (d d' : Daemon σ) : Option String :=
  match d'.history.drop d.history.length with
  | .reply text :: _ => some text
  | _ => none

def serve (ops : DaemonOps σ) (input : List Recv) (now : UInt64) (s : Upgrade σ) : Upgrade σ :=
  let answer := answerRequest ops input now s.daemon
  { s with
    link := .served
    reply := sentSince s.daemon answer.2
    daemon := answer.2
    accepted := answer.1
    agreed := answer.1 }

/-- A step of either side. `kmorphd` handles one event at a time, so it does nothing else between
its answer and `take_handover`. -/
inductive UpgradeStep
  | client (step : ClientStep)
  | serve (input : List Recv) (now : UInt64)
  | takeHandover
  | daemon (ev : Event)

def upgradeStep (ops : DaemonOps σ) (s : Upgrade σ) : UpgradeStep → Upgrade σ
  | .client step => if s.fenced then s else clientStep s step
  | .serve input now =>
      match s.link with
      | .queued sent =>
          -- The request stays queued even if the client has given up since.
          if !s.accepted && deliverable sent input then serve ops input now s else s
      | .absent | .served => s
  | .takeHandover =>
      if s.accepted then { s with daemon := takeHandover ops s.daemon, accepted := false } else s
  | .daemon ev => if s.accepted then s else { s with daemon := daemonStep ops s.daemon ev }

def upgradeRun (ops : DaemonOps σ) (s : Upgrade σ) (steps : List UpgradeStep) : Upgrade σ :=
  steps.foldl (upgradeStep ops) s

/-- What `upgrade_run` meets on its way: the successor, other instances, its mounts, each freeze and
thaw, and the answer to its request. -/
structure UpgradeAnswers where
  instanceId : Int
  otherRunning : Int
  mountinfo : Except Int (List Char)
  granted : ℕ → Bool
  freeze : Path → Int
  thaw : Path → Int
  request : Except Int (List Char)

/-- `freeze_filesystems`: what it returns, the set it leaves and the calls it makes. -/
def freezeFilesystems (a : UpgradeAnswers) : Int × List Path × List FreezeCall :=
  match a.mountinfo with
  | .error ret => (ret, [], [])
  | .ok bytes =>
      let collected := freezeCollect a.granted (fileString bytes)
      if collected.1 ≠ 0 then (collected.1, [], [])
      else
        let all := freezeCalls a.freeze a.thaw [] collected.2
        if all.1 ≠ 0 then (all.1, [], all.2) else (0, collected.2, all.2)

/-- What `upgrade_run` returns, and its calls on the filesystems. -/
def upgradeCalls (a : UpgradeAnswers) : Int × List FreezeCall :=
  if a.instanceId ≠ 0 then (-ENOENT, [])
  else if a.otherRunning > 0 then (-EBUSY, [])
  else if a.otherRunning ≠ 0 then (a.otherRunning, [])
  else
    let (ret, frozen, calls) := freezeFilesystems a
    if ret ≠ 0 then (ret, calls)
    else
      let ret :=
        match a.request with
        | .error ret => ret
        | .ok reply =>
            let ret := (requestParseHandover reply REASON_MAX).1
            if ret = 0 then -ETIMEDOUT else ret
      (ret, calls ++ thawCalls a.thaw frozen)

end Kmorph
