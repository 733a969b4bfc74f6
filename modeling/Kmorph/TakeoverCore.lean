import Mathlib.Algebra.Group.Nat.Defs

/-!
Executable model of the takeover state machine, `kmorphd/takeover.c`. The ops
table works on a context of any type, as the `void *ctx` of the source does; an
op returns its result code and the context it leaves.
-/

namespace Kmorph

inductive TakeoverState
  | armed
  | suspect
  | fencing
  | fenceFailed
  | fenced
  | takenOver
deriving Repr, DecidableEq

inductive TakeoverEvent
  | probeAlive
  | probeSilent
  | request
deriving Repr, DecidableEq

structure Takeover where
  state : TakeoverState
  probeTimeouts : UInt32
  fenceRetries : UInt32
  silent : UInt32
  fenceAttempts : UInt32
  lastError : Int
deriving Repr, DecidableEq

structure TakeoverOps (σ : Type) where
  fence : σ → Int × σ
  adopt : σ → Int × σ
  preserve : σ → Int × σ
  reap : σ → Int × σ
  onState : Takeover → TakeoverState → σ → σ

structure Machine (σ : Type) where
  tk : Takeover
  ctx : σ

variable {σ : Type}

def takeoverInit (ctx : σ) (probeTimeouts fenceRetries : UInt32) : Machine σ where
  tk := {
    state := .armed
    probeTimeouts := probeTimeouts
    fenceRetries := fenceRetries
    silent := 0
    fenceAttempts := 0
    lastError := 0
  }
  ctx := ctx

def setState (ops : TakeoverOps σ) (s : TakeoverState) (m : Machine σ) : Machine σ :=
  let tk := { m.tk with state := s }
  { tk := tk, ctx := ops.onState tk s m.ctx }

def step (op : σ → Int × σ) (m : Machine σ) : Int × Machine σ :=
  let answer := op m.ctx
  (answer.1, { tk := { m.tk with lastError := answer.1 }, ctx := answer.2 })

def continueTakeover (ops : TakeoverOps σ) (m : Machine σ) : Machine σ :=
  let adopted := step ops.adopt m
  if adopted.1 ≠ 0 then adopted.2
  else
    let preserved := step ops.preserve adopted.2
    setState ops .takenOver
      (if preserved.1 = 0 then (step ops.reap preserved.2).2 else preserved.2)

def beginTakeover (ops : TakeoverOps σ) (m : Machine σ) : Machine σ :=
  let m := setState ops .fencing m
  let m := { m with tk := { m.tk with fenceAttempts := m.tk.fenceAttempts + 1 } }
  let fenced := step ops.fence m
  if fenced.1 ≠ 0 then setState ops .fenceFailed fenced.2
  else continueTakeover ops (setState ops .fenced fenced.2)

def handleWatching (ops : TakeoverOps σ) (m : Machine σ) : TakeoverEvent → Machine σ
  | .probeAlive =>
      let m := { m with tk := { m.tk with silent := 0 } }
      if m.tk.state ≠ .armed then setState ops .armed m else m
  | .probeSilent =>
      let m := { m with tk := { m.tk with silent := m.tk.silent + 1 } }
      if m.tk.silent ≥ m.tk.probeTimeouts then beginTakeover ops m
      else if m.tk.state ≠ .suspect then setState ops .suspect m else m
  | .request => if m.tk.state = .armed then beginTakeover ops m else m

def takeoverHandle (ops : TakeoverOps σ) (m : Machine σ) (ev : TakeoverEvent) : Machine σ :=
  match m.tk.state with
  | .armed | .suspect => handleWatching ops m ev
  | .fenceFailed =>
      if ev ≠ .probeAlive ∧ m.tk.fenceAttempts ≤ m.tk.fenceRetries then beginTakeover ops m else m
  | .fenced => continueTakeover ops m
  | .fencing | .takenOver => m

def takeoverRun (ops : TakeoverOps σ) (m : Machine σ) (events : List TakeoverEvent) : Machine σ :=
  events.foldl (takeoverHandle ops) m

def takeoverStateName : TakeoverState → String
  | .armed => "ARMED"
  | .suspect => "SUSPECT"
  | .fencing => "FENCING"
  | .fenceFailed => "FENCE_FAILED"
  | .fenced => "FENCED"
  | .takenOver => "TAKEN_OVER"

inductive Op
  | fence
  | adopt
  | preserve
  | reap
deriving Repr, DecidableEq

/-- The same ops on a context that also notes each call with its result. -/
def TakeoverOps.noting {η : Type} (ops : TakeoverOps σ) (note : Op → Int → η → η) :
    TakeoverOps (σ × η) where
  fence ctx := match ops.fence ctx.1 with | (ret, inner) => (ret, inner, note .fence ret ctx.2)
  adopt ctx := match ops.adopt ctx.1 with | (ret, inner) => (ret, inner, note .adopt ret ctx.2)
  preserve ctx := match ops.preserve ctx.1 with
    | (ret, inner) => (ret, inner, note .preserve ret ctx.2)
  reap ctx := match ops.reap ctx.1 with | (ret, inner) => (ret, inner, note .reap ret ctx.2)
  onState tk s ctx := (ops.onState tk s ctx.1, ctx.2)

def TakeoverOps.logged (ops : TakeoverOps σ) : TakeoverOps (σ × List (Op × Int)) :=
  ops.noting fun op ret calls => calls ++ [(op, ret)]

def nextStreak (streak : ℕ) : TakeoverEvent → ℕ
  | .probeAlive => 0
  | .probeSilent => streak + 1
  | .request => streak

def silentStreak (events : List TakeoverEvent) : ℕ :=
  events.foldl nextStreak 0

end Kmorph
