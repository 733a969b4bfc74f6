import Kmorph.RequestCore
import Kmorph.TakeoverCore

/-!
Executable model of the `kmorphd` event loop, `kmorphd/main.c` with
`lib/probe.c`. One `Event` is one descriptor `epoll_wait` reports, with what the
system calls of its handler return. The context of the ops carries the history
of what the daemon did; each call of `probe_start` is numbered, so that the
history says which probe a result comes from.
-/

namespace Kmorph

inductive ProbeResult
  | alive
  | silent
  | error
deriving Repr, DecidableEq

def probeClassify (err : Int) : ProbeResult :=
  if err = 0 ∨ err = ECONNRESET then .alive
  else if err = ETIMEDOUT ∨ err = EHOSTDOWN then .silent
  else .error

def probeResultName : ProbeResult → String
  | .alive => "alive"
  | .silent => "silent"
  | .error => "error"

inductive Obs
  | started (probe : ℕ)
  | result (probe : ℕ) (r : ProbeResult)
  | reply (text : String)
  | handover
  | called (op : Op) (ret : Int)
deriving Repr, DecidableEq

variable {σ : Type}

/-- The takeover ops with what else the daemon does to their context: `dump_path = NULL`, and the
parse and keeping of a network identity, which fails on a malformed one. -/
structure DaemonOps (σ : Type) extends TakeoverOps σ where
  dropDump : σ → σ
  takeNetwork : List Char → σ → Option σ

def DaemonOps.watched (ops : DaemonOps σ) : TakeoverOps (σ × List Obs) :=
  ops.toTakeoverOps.noting fun op ret history => history ++ [.called op ret]

structure Daemon (σ : Type) where
  machine : Machine (σ × List Obs)
  probeFd : Int
  lastResult : ProbeResult
  lastProbeErr : Int
  lastProbeMs : UInt64
  probeReported : Bool
  handedOver : Bool
  /-- The calls of `probe_start` so far, and the one `probeFd` came from. -/
  probes : ℕ
  pending : ℕ

def daemonInit (ctx : σ) (probeTimeouts fenceRetries : UInt32) : Daemon σ where
  machine := takeoverInit (ctx, []) probeTimeouts fenceRetries
  probeFd := -1
  lastResult := .error
  lastProbeErr := 0
  lastProbeMs := 0
  probeReported := false
  handedOver := false
  probes := 0
  pending := 0

def Daemon.tk (d : Daemon σ) : Takeover := d.machine.tk

def Daemon.history (d : Daemon σ) : List Obs := d.machine.ctx.2

def Daemon.note (o : Obs) (d : Daemon σ) : Daemon σ :=
  { d with machine := { d.machine with ctx := (d.machine.ctx.1, d.history ++ [o]) } }

def Daemon.handle (ops : DaemonOps σ) (ev : TakeoverEvent) (d : Daemon σ) : Daemon σ :=
  { d with machine := takeoverHandle ops.watched d.machine ev }

def TakeoverState.rank : TakeoverState → ℕ
  | .armed => 0
  | .suspect => 1
  | .fencing => 2
  | .fenceFailed => 3
  | .fenced => 4
  | .takenOver => 5

def fillStatus (d : Daemon σ) (now : UInt64) : StatusReply where
  state := snprintf 16 (takeoverStateName d.tk.state)
  predecessor := snprintf 16 (if d.handedOver then "handed-over" else probeResultName d.lastResult)
  lastProbeMs := if d.lastProbeMs ≠ 0 then now - d.lastProbeMs else 0
  lastError := d.tk.lastError

def recordProbe (probe : ℕ) (err : Int) (now : UInt64) (d : Daemon σ) : Daemon σ :=
  let r := probeClassify err
  let d := d.note (.result probe r)
  let d :=
    if r ≠ d.lastResult ∨ d.probeReported = false ∨ r = .error ∧ err ≠ d.lastProbeErr then
      { d with lastResult := r, probeReported := true }
    else d
  { d with lastProbeErr := err, lastProbeMs := now }

def deliverProbe (ops : DaemonOps σ) (probe : ℕ) (err : Int) (now : UInt64) (d : Daemon σ) :
    Daemon σ :=
  let d := recordProbe probe err now d
  match probeClassify err with
  | .alive => d.handle ops .probeAlive
  | .silent => d.handle ops .probeSilent
  | .error => d

/-- What the system calls of one `on_tick` return: whether the timer could be read, the descriptor
or `-errno` of `probe_start`, the result of `epoll_add`, and the clock at either delivery. -/
structure Tick where
  expired : Bool
  start : Int
  added : Int
  now : UInt64
  later : UInt64
deriving Repr, DecidableEq

def timeoutPending (ops : DaemonOps σ) (now : UInt64) (d : Daemon σ) : Daemon σ :=
  if d.probeFd ≥ 0 then deliverProbe ops d.pending ETIMEDOUT now { d with probeFd := -1 } else d

def startProbe (ops : DaemonOps σ) (tick : Tick) (d : Daemon σ) : Daemon σ :=
  let d := { d.note (.started (d.probes + 1)) with probes := d.probes + 1 }
  if tick.start < 0 then deliverProbe ops d.probes (-tick.start) tick.later d
  else if tick.added ≠ 0 then deliverProbe ops d.probes EIO tick.later d
  else { d with probeFd := tick.start, pending := d.probes }

def onTick (ops : DaemonOps σ) (tick : Tick) (d : Daemon σ) : Daemon σ :=
  if tick.expired = false then d
  -- From FENCING on, FENCE_FAILED and FENCED included, no probe is timed out or started.
  else if d.tk.state.rank ≥ TakeoverState.fencing.rank then d
  else startProbe ops tick (timeoutPending ops tick.now d)

def onProbeReady (ops : DaemonOps σ) (err : Int) (now : UInt64) (d : Daemon σ) : Daemon σ :=
  deliverProbe ops d.pending err now { d with probeFd := -1 }

def answerHandover (d : Daemon σ) (len : ℕ) : Bool × Except Int String :=
  let accepted := d.tk.state = .armed ∧ d.lastResult = .alive
  let reason := snprintf 64 ("state=" ++ takeoverStateName d.tk.state ++ " predecessor=" ++
    probeResultName d.lastResult)
  (accepted, requestFormatHandover (if accepted then none else some reason) len)

def answerNetwork (ops : DaemonOps σ) (text : List Char) (len : ℕ) (d : Daemon σ) :
    Daemon σ × Except Int String :=
  if d.tk.state.rank ≥ TakeoverState.fencing.rank then
    (d, requestFormatNetworkReply
      (some (snprintf 64 ("state=" ++ takeoverStateName d.tk.state))) len)
  else
    match ops.takeNetwork text d.machine.ctx.1 with
    | none => (d, requestFormatNetworkReply (some "malformed") len)
    | some ctx =>
        ({ d with machine := { d.machine with ctx := (ctx, d.history) } },
          requestFormatNetworkReply none len)

def REPLY_MAX : ℕ := 128
def REQUEST_MAX : ℕ := REQUEST_LINE_MAX + 16384

def Daemon.send (reply : Except Int String) (d : Daemon σ) : Daemon σ :=
  match reply with
  | .ok text => d.note (.reply text)
  | .error _ => d

/-- Whether the predecessor handed over, and the daemon once it has answered. -/
def answerRequest (ops : DaemonOps σ) (input : List Recv) (now : UInt64) (d : Daemon σ) :
    Bool × Daemon σ :=
  match readRequest REQUEST_MAX none [] input with
  | .error errno =>
      if errno = -ETIMEDOUT ∨ errno = -ECONNRESET then (false, d)
      else (false, d.send (.ok "err unsupported request\n"))
  | .ok (.handover, _) =>
      let answer := answerHandover d REPLY_MAX
      (answer.1, d.send answer.2)
  | .ok (.network, payload) =>
      let answer := answerNetwork ops (cString payload) REPLY_MAX d
      (false, answer.1.send answer.2)
  | .ok (.status, _) => (false, d.send (requestFormatStatus (fillStatus d now) REPLY_MAX))

def takeHandover (ops : DaemonOps σ) (d : Daemon σ) : Daemon σ :=
  let d := d.note .handover
  let d := { d with
    handedOver := true
    machine := { d.machine with ctx := (ops.dropDump d.machine.ctx.1, d.history) } }
  d.handle ops .request

def onConnection (ops : DaemonOps σ) (input : List Recv) (now : UInt64) (d : Daemon σ) : Daemon σ :=
  let answer := answerRequest ops input now d
  if answer.1 then takeHandover ops answer.2 else answer.2

inductive Event
  | tick (tick : Tick)
  | probeReady (err : Int) (now : UInt64)
  | connection (accepted : Bool) (input : List Recv) (now : UInt64)
deriving Repr, DecidableEq

/-- One turn of `daemon_run`. A descriptor that is not the pending probe's matches no handler. -/
def daemonStep (ops : DaemonOps σ) (d : Daemon σ) : Event → Daemon σ
  | .tick tick => onTick ops tick d
  | .probeReady err now => if d.probeFd ≥ 0 then onProbeReady ops err now d else d
  | .connection accepted input now => if accepted then onConnection ops input now d else d

def daemonRun (ops : DaemonOps σ) (d : Daemon σ) (events : List Event) : Daemon σ :=
  events.foldl (daemonStep ops) d

end Kmorph
