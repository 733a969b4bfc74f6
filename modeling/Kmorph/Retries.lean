import Kmorph.Daemon

/-!
Who drives the retry of a failed fence or adopt. Once a takeover has begun a
tick neither times a probe out nor starts one, so a run keeps the promise of a
retry exactly if it never fails in a way that leaves one due.
-/

namespace Kmorph

variable {σ : Type}

def Waiting (tk : Takeover) : Prop :=
  tk.state = .fenceFailed ∧ tk.fenceAttempts ≤ tk.fenceRetries ∨ tk.state = .fenced

def retryOp (state : TakeoverState) : Op :=
  if state = .fenceFailed then .fence else .adopt

def Tick.Starts (tick : Tick) : Prop :=
  tick.expired = true ∧ 0 ≤ tick.start ∧ tick.added = 0

/-- Two further ticks without an answer make the call again. -/
def Driven (ops : DaemonOps σ) (d : Daemon σ) : Prop :=
  Waiting d.tk → ∀ first second : Tick, first.Starts → second.Starts →
    ∃ ret, .called (retryOp d.tk.state) ret ∈
      (daemonRun ops d [.tick first, .tick second]).history.drop d.history.length

theorem TakeoverState.rank_of_begun {state : TakeoverState} :
    state.rank ≥ TakeoverState.fencing.rank ↔ state.begun = true := by
  cases state <;> simp [rank, begun]

theorem Waiting.begun {tk : Takeover} (waiting : Waiting tk) : tk.state.begun = true := by
  rcases waiting with ⟨failed, _⟩ | fenced
  · rw [failed]
    rfl
  · rw [fenced]
    rfl

theorem onTick_begun (ops : DaemonOps σ) (tick : Tick) {d : Daemon σ}
    (begun : d.tk.state.begun = true) : onTick ops tick d = d := by
  unfold onTick
  rw [if_pos (TakeoverState.rank_of_begun.mpr begun), ite_self]

theorem driven_iff (ops : DaemonOps σ) (d : Daemon σ) : Driven ops d ↔ ¬ Waiting d.tk := by
  constructor
  · intro driven waiting
    obtain ⟨ret, called⟩ := driven waiting ⟨true, 0, 0, 0, 0⟩ ⟨true, 0, 0, 0, 0⟩
      ⟨rfl, Int.le_refl 0, rfl⟩ ⟨rfl, Int.le_refl 0, rfl⟩
    simp [daemonRun, daemonStep, onTick_begun ops _ waiting.begun] at called
  · intro settled waiting
    exact absurd waiting settled

def Obs.asCall : Obs → Option (Op × Int)
  | .called op ret => some (op, ret)
  | .started _ | .result _ _ | .reply _ | .handover => none

def calls (history : List Obs) : List (Op × Int) :=
  history.filterMap Obs.asCall

theorem mem_calls {op : Op} {ret : Int} {history : List Obs} :
    (op, ret) ∈ calls history ↔ .called op ret ∈ history := by
  constructor
  · intro member
    obtain ⟨o, found, same⟩ := List.mem_filterMap.mp member
    cases o <;> simp_all [Obs.asCall]
  · intro member
    exact List.mem_filterMap.mpr ⟨_, member, rfl⟩

theorem calls_append (first second : List Obs) :
    calls (first ++ second) = calls first ++ calls second := by
  simp [calls]

theorem calls_map_call (new : List (Op × Int)) : calls (new.map Obs.call) = new := by
  induction new with
  | nil => rfl
  | cons c new ih =>
      rw [List.map_cons, calls, List.filterMap_cons]
      exact congrArg (c :: ·) ih

structure Quiet (d d' : Daemon σ) : Prop where
  tk : d'.tk = d.tk
  calls : calls d'.history = calls d.history

theorem Quiet.refl (d : Daemon σ) : Quiet d d := ⟨rfl, rfl⟩

theorem Quiet.trans {d d' d'' : Daemon σ} (first : Quiet d d') (second : Quiet d' d'') :
    Quiet d d'' :=
  ⟨second.tk.trans first.tk, second.calls.trans first.calls⟩

def OneEvent (ops : DaemonOps σ) (d d' : Daemon σ) : Prop :=
  ∃ d₁ d₂, Quiet d d₁ ∧ (d₂ = d₁ ∨ ∃ ev, d₂ = d₁.handle ops ev) ∧ Quiet d₂ d'

theorem Quiet.oneEvent (ops : DaemonOps σ) {d d' : Daemon σ} (quiet : Quiet d d') :
    OneEvent ops d d' :=
  ⟨d', d', quiet, Or.inl rfl, Quiet.refl d'⟩

theorem Quiet.then_oneEvent {ops : DaemonOps σ} {d d' d'' : Daemon σ} (quiet : Quiet d d')
    (event : OneEvent ops d' d'') : OneEvent ops d d'' := by
  obtain ⟨d₁, d₂, before, handled, after⟩ := event
  exact ⟨d₁, d₂, quiet.trans before, handled, after⟩

theorem OneEvent.then_quiet {ops : DaemonOps σ} {d d' d'' : Daemon σ} (event : OneEvent ops d d')
    (quiet : Quiet d' d'') : OneEvent ops d d'' := by
  obtain ⟨d₁, d₂, before, handled, after⟩ := event
  exact ⟨d₁, d₂, before, handled, after.trans quiet⟩

theorem closed_quiet (d : Daemon σ) : Quiet d { d with probeFd := -1 } := ⟨rfl, rfl⟩

theorem note_quiet (d : Daemon σ) {o : Obs} (other : o.asCall = none) : Quiet d (d.note o) := by
  refine ⟨rfl, ?_⟩
  rw [note_history, calls_append]
  simp [calls, other]

theorem recordProbe_quiet (probe : ℕ) (err : Int) (now : UInt64) (d : Daemon σ) :
    Quiet d (recordProbe probe err now d) := by
  have noted := note_quiet d (show (Obs.result probe (probeClassify err)).asCall = none from rfl)
  have same := recordProbe_machine probe err now d
  exact ⟨(congrArg Machine.tk same).trans noted.tk,
    (congrArg (fun m : Machine (σ × List Obs) => Kmorph.calls m.ctx.2) same).trans noted.calls⟩

theorem deliverProbe_oneEvent (ops : DaemonOps σ) (probe : ℕ) (err : Int) (now : UInt64)
    (d : Daemon σ) : OneEvent ops d (deliverProbe ops probe err now d) := by
  have recorded := recordProbe_quiet probe err now d
  unfold deliverProbe
  cases probeClassify err with
  | alive => exact ⟨_, _, recorded, Or.inr ⟨_, rfl⟩, Quiet.refl _⟩
  | silent => exact ⟨_, _, recorded, Or.inr ⟨_, rfl⟩, Quiet.refl _⟩
  | error => exact recorded.oneEvent ops

theorem send_quiet (d : Daemon σ) (reply : Except Int String) : Quiet d (d.send reply) := by
  cases reply with
  | ok text => exact note_quiet d rfl
  | error _ => exact Quiet.refl d

theorem answerRequest_quiet (ops : DaemonOps σ) (input : List Recv) (now : UInt64) (d : Daemon σ) :
    Quiet d (answerRequest ops input now d).2 := by
  obtain ⟨d₁, continues, sameTk, answer⟩ := answerRequest_answers ops input now d
  have kept : Quiet d d₁ := ⟨sameTk, by simp [continues.history]⟩
  rcases answer with same | ⟨reply, same⟩
  · exact same ▸ kept
  · exact same ▸ kept.trans (send_quiet d₁ reply)

theorem takeHandover_oneEvent (ops : DaemonOps σ) (d : Daemon σ) :
    OneEvent ops d (takeHandover ops d) := by
  have noted := note_quiet d (show Obs.handover.asCall = none from rfl)
  exact ⟨granted ops d, _, ⟨noted.tk, noted.calls⟩, Or.inr ⟨.request, rfl⟩, Quiet.refl _⟩

def Event.Starts : Event → Prop
  | .tick t => 0 ≤ t.start ∧ t.added = 0
  | .probeReady _ _ | .connection _ _ _ => True

theorem startProbe_quiet (ops : DaemonOps σ) {tick : Tick} (started : 0 ≤ tick.start)
    (added : tick.added = 0) (d : Daemon σ) :
    Quiet d (startProbe ops tick d) ∧ (startProbe ops tick d).probeFd = tick.start := by
  have numbered : Quiet d (numberProbe d) := by
    have noted := note_quiet d (show (Obs.started (d.probes + 1)).asCall = none from rfl)
    exact ⟨noted.tk, noted.calls⟩
  simp only [startProbe, Int.not_lt.mpr started, added, if_false, ne_eq, not_true_eq_false]
  exact ⟨⟨numbered.tk, numbered.calls⟩, trivial⟩

theorem timeoutPending_oneEvent (ops : DaemonOps σ) (now : UInt64) (d : Daemon σ) :
    OneEvent ops d (timeoutPending ops now d) := by
  unfold timeoutPending
  split
  · exact (closed_quiet d).then_oneEvent (deliverProbe_oneEvent ops _ _ _ _)
  · exact (Quiet.refl d).oneEvent ops

theorem daemonStep_oneEvent (ops : DaemonOps σ) (d : Daemon σ) {ev : Event} (starts : ev.Starts) :
    OneEvent ops d (daemonStep ops d ev) := by
  have same : OneEvent ops d d := (Quiet.refl d).oneEvent ops
  cases ev with
  | tick tick =>
      simp only [daemonStep, onTick]
      split
      · exact same
      · split
        · exact same
        · exact (timeoutPending_oneEvent ops tick.now d).then_quiet
            (startProbe_quiet ops starts.1 starts.2 _).1
  | probeReady err now =>
      simp only [daemonStep]
      split
      · exact (closed_quiet d).then_oneEvent (deliverProbe_oneEvent ops _ _ _ _)
      · exact same
  | connection accepted input now =>
      have answered := answerRequest_quiet ops input now d
      simp only [daemonStep, onConnection]
      split
      · split
        · exact answered.then_oneEvent (takeHandover_oneEvent ops _)
        · exact answered.oneEvent ops
      · exact same

def Idle (retries : UInt32) (tk : Takeover) : Prop :=
  tk.fenceRetries = retries ∧ (tk.state.begun = false → tk.fenceAttempts = 0)

def anyStages (ops : TakeoverOps σ) (retries : UInt32) : Stages ops retries where
  watching _ := True
  failed _ _ := True
  fenced _ := True
  adopted _ := True
  preserved _ := True
  takenOver _ := True
  watching_onState _ _ _ _ := trivial
  failed_onState _ _ _ _ _ := trivial
  fenced_onState _ _ _ _ := trivial
  takenOver_onState _ _ _ _ := trivial
  fence_fails _ _ _ _ := trivial
  fence_succeeds _ _ _ _ := trivial
  adopt_fails _ _ _ := trivial
  adopt_succeeds _ _ _ := trivial
  preserve_fails _ _ _ := trivial
  preserve_succeeds _ _ _ := trivial
  reap_returns _ _ := trivial

theorem anyStages_holds_iff {ops : TakeoverOps σ} {retries : UInt32} {m : Machine σ} :
    (anyStages ops retries).Holds m ↔ Idle retries m.tk ∧ m.tk.state ≠ .fencing := by
  cases state : m.tk.state <;>
    simp [Stages.Holds, Idle, state, anyStages, TakeoverState.begun]

theorem OneEvent.round {ops : DaemonOps σ} {d d' : Daemon σ} (event : OneEvent ops d d') :
    ∃ new, calls d'.history = calls d.history ++ new ∧ Round d.tk d'.tk new := by
  obtain ⟨d₁, d₂, before, handled, after⟩ := event
  rcases handled with rfl | ⟨ev, rfl⟩
  · refine ⟨[], by simp [after.calls, before.calls], ?_⟩
    rw [after.tk, before.tk]
    exact .quiet (fun _ => rfl) id rfl
  · obtain ⟨new, grown, round⟩ := handle_history ops ev d₁
    refine ⟨new, ?_, ?_⟩
    · rw [after.calls, grown, calls_append, calls_map_call, before.calls]
    · rw [after.tk, ← before.tk]
      exact round

theorem OneEvent.idle {ops : DaemonOps σ} {d d' : Daemon σ} {retries : UInt32}
    (event : OneEvent ops d d') (idle : Idle retries d.tk ∧ d.tk.state ≠ .fencing) :
    Idle retries d'.tk ∧ d'.tk.state ≠ .fencing := by
  obtain ⟨d₁, d₂, before, handled, after⟩ := event
  rw [after.tk]
  rw [← before.tk] at idle
  rcases handled with rfl | ⟨ev, rfl⟩
  · exact idle
  · have held : (anyStages ops.watched retries).Holds d₁.machine := anyStages_holds_iff.mpr idle
    exact anyStages_holds_iff.mp ((anyStages ops.watched retries).takeoverHandle_holds held ev)

def Unfailed (retries : UInt32) (calls : List (Op × Int)) : Prop :=
  (∀ ret, (Op.adopt, ret) ∈ calls → ret = 0) ∧
    (retries = 0 ∨ ∀ ret, (Op.fence, ret) ∈ calls → ret = 0)

theorem unfailed_append {retries : UInt32} {first second : List (Op × Int)} :
    Unfailed retries (first ++ second) ↔ Unfailed retries first ∧ Unfailed retries second := by
  simp only [Unfailed, List.mem_append, or_imp, forall_and]
  tauto

theorem waiting_of_first_failure {retries : UInt32} {before after : Takeover}
    (idle : Idle retries before) (idle' : Idle retries after) (settled : ¬ Waiting before)
    (unfenced : before.Unfenced) (state : after.state = .fenceFailed)
    (attempts : after.fenceAttempts = before.fenceAttempts + 1) :
    Waiting after ↔ retries ≠ 0 := by
  have first : before.fenceAttempts = 0 := by
    rcases unfenced with watching | ⟨failed, left⟩
    · exact idle.2 watching
    · exact absurd (Or.inl ⟨failed, left⟩) settled
  have one : after.fenceAttempts = 1 := by rw [attempts, first]; rfl
  have positive : (1 : UInt32) ≤ retries ↔ retries ≠ 0 := by
    rw [UInt32.le_iff_toNat_le, ne_eq, ← UInt32.toNat_inj, UInt32.toNat_one, UInt32.toNat_zero]
    omega
  simp [Waiting, state, one, idle'.1, positive]

theorem Round.settled_iff {retries : UInt32} {before after : Takeover} {new : List (Op × Int)}
    (round : Round before after new) (idle : Idle retries before) (idle' : Idle retries after)
    (settled : ¬ Waiting before) : ¬ Waiting after ↔ Unfailed retries new := by
  cases round with
  | quiet begun watching =>
      refine iff_of_true ?_ ⟨by simp, by simp⟩
      cases state : before.state.begun with
      | true =>
          rw [begun state]
          exact settled
      | false =>
          intro waiting
          exact absurd waiting.begun (by simp [watching state])
  | fenceFails ret unfenced failed state attempts =>
      rw [waiting_of_first_failure idle idle' settled unfenced state attempts, not_not]
      simp [Unfailed, failed]
  | adoptFails fences ret stopped failed state =>
      refine iff_of_false (not_not.mpr (Or.inr state)) ?_
      intro unfailed
      exact failed (unfailed.1 ret (by simp))
  | finishes fences finish stopped last state =>
      have clean : ∀ ret, (Op.adopt, ret) ∉ finish ∧ (Op.fence, ret) ∉ finish := by
        intro ret
        constructor <;> intro member <;> simpa using last _ member
      refine iff_of_true (by simp [Waiting, state]) ?_
      rcases stopped with ⟨rfl, _⟩ | rfl <;> simp [Unfailed, clean]

theorem daemonRun_append (ops : DaemonOps σ) (d : Daemon σ) (events : List Event) (ev : Event) :
    daemonRun ops d (events ++ [ev]) = daemonStep ops (daemonRun ops d events) ev := by
  simp [daemonRun]

theorem daemonRun_idle (ops : DaemonOps σ) {d : Daemon σ} {retries : UInt32}
    (idle : Idle retries d.tk ∧ d.tk.state ≠ .fencing) {events : List Event}
    (starts : ∀ ev ∈ events, ev.Starts) :
    Idle retries (daemonRun ops d events).tk ∧ (daemonRun ops d events).tk.state ≠ .fencing := by
  refine List.foldlRecOn (motive := fun d => Idle retries d.tk ∧ d.tk.state ≠ .fencing) events
    (daemonStep ops) idle ?_
  intro d' idle' ev member
  exact (daemonStep_oneEvent ops d' (starts ev member)).idle idle'

theorem daemonRun_settled_iff (ops : DaemonOps σ) {d : Daemon σ} {retries : UInt32}
    (idle : Idle retries d.tk ∧ d.tk.state ≠ .fencing) (settled : ¬ Waiting d.tk)
    (fresh : Unfailed retries (calls d.history)) (events : List Event)
    (starts : ∀ ev ∈ events, ev.Starts) :
    (∀ reached, reached <+: events → ¬ Waiting (daemonRun ops d reached).tk) ↔
      Unfailed retries (calls (daemonRun ops d events).history) := by
  induction events using List.reverseRecOn with
  | nil => simpa [daemonRun, settled] using fresh
  | append_singleton events ev ih =>
      have earlier : ∀ ev ∈ events, ev.Starts := fun ev member => starts ev (by simp [member])
      have event := daemonStep_oneEvent ops (daemonRun ops d events) (starts ev (by simp))
      have idleBefore := daemonRun_idle ops idle earlier
      have idleAfter := event.idle idleBefore
      obtain ⟨new, grown, round⟩ := event.round
      rw [daemonRun_append, grown, unfailed_append, ← ih earlier]
      simp only [List.prefix_concat_iff, or_imp, forall_and, forall_eq, daemonRun_append]
      constructor
      · rintro ⟨last, before⟩
        exact ⟨before, (round.settled_iff idleBefore.1 idleAfter.1
          (before events (List.prefix_refl _))).mp last⟩
      · rintro ⟨before, unfailed⟩
        exact ⟨(round.settled_iff idleBefore.1 idleAfter.1
          (before events (List.prefix_refl _))).mpr unfailed, before⟩

def fenceCount (history : List Obs) : ℕ :=
  (calls history).countP (fun c => c.1 = .fence)

structure Unanswered (probeTimeouts : UInt32) (streak : ℕ) (d : Daemon σ) : Prop where
  watching : Watching probeTimeouts streak d.tk
  inState : d.tk.state.begun = false
  pending : 0 ≤ d.probeFd
  uncalled : calls d.history = []

theorem onTick_unanswered (ops : DaemonOps σ) {d : Daemon σ} {tick : Tick} {probeTimeouts : UInt32}
    {streak : ℕ} (starts : tick.Starts) (unanswered : Unanswered probeTimeouts streak d) :
    ∃ d₁ : Daemon σ, Quiet d d₁ ∧ Quiet (d₁.handle ops .probeSilent) (onTick ops tick d) ∧
      (onTick ops tick d).probeFd = tick.start := by
  obtain ⟨expired, started, added⟩ := starts
  have early : ¬ d.tk.state.rank ≥ TakeoverState.fencing.rank := by
    rw [TakeoverState.rank_of_begun, unanswered.inState]
    simp
  have delivered : timeoutPending ops tick.now d =
      (recordProbe d.pending ETIMEDOUT tick.now { d with probeFd := -1 }).handle ops .probeSilent :=
    if_pos unanswered.pending
  have whole : onTick ops tick d = startProbe ops tick (timeoutPending ops tick.now d) := by
    rw [onTick, expired, if_neg (by simp), if_neg early]
  obtain ⟨quiet, probeFd⟩ := startProbe_quiet ops started added (timeoutPending ops tick.now d)
  rw [whole]
  refine ⟨_, (closed_quiet d).trans (recordProbe_quiet d.pending ETIMEDOUT tick.now _), ?_, probeFd⟩
  rw [← delivered]
  exact quiet

theorem Unanswered.next (ops : DaemonOps σ) {d : Daemon σ} {tick : Tick} {probeTimeouts : UInt32}
    {streak : ℕ} (starts : tick.Starts) (unanswered : Unanswered probeTimeouts streak d)
    (below : streak + 1 < probeTimeouts.toNat) :
    Unanswered probeTimeouts (streak + 1) (onTick ops tick d) := by
  obtain ⟨d₁, before, after, probeFd⟩ := onTick_unanswered ops starts unanswered
  have watching : Watching probeTimeouts streak d₁.tk := before.tk ▸ unanswered.watching
  have inState : d₁.tk.state.begun = false := before.tk ▸ unanswered.inState
  obtain ⟨new, grown, round⟩ := handle_history ops .probeSilent d₁
  have none : new = [] := by
    by_contra some
    rcases cause_of_calls watching inState grown some with request | ⟨_, reached⟩
    · simp at request
    · omega
  subst none
  refine ⟨?_, ?_, probeFd ▸ starts.2.1, ?_⟩
  · rw [after.tk]
    exact takeoverHandle_watching .probeSilent watching
  · rw [after.tk, ← Bool.not_eq_true, round.begun]
    simp [inState]
  · rw [after.calls, grown, List.map_nil, List.append_nil, before.calls, unanswered.uncalled]

structure GaveUp (d : Daemon σ) : Prop where
  state : d.tk.state = .fenceFailed
  once : fenceCount d.history = 1

theorem handle_silence_fails {ops : DaemonOps σ} (failing : ∀ ctx, (ops.fence ctx).1 ≠ 0)
    {d : Daemon σ} {probeTimeouts : UInt32} {streak : ℕ}
    (watching : Watching probeTimeouts streak d.tk) (inState : d.tk.state.begun = false)
    (reached : probeTimeouts.toNat ≤ streak + 1) :
    (d.handle ops .probeSilent).tk.state = .fenceFailed := by
  have state := TakeoverState.begun_eq_false_iff.mp inState
  have enough : d.machine.tk.silent + 1 ≥ d.machine.tk.probeTimeouts := by
    rw [ge_iff_le, UInt32.le_iff_toNat_le, show d.machine.tk.probeTimeouts = probeTimeouts
      from watching.threshold]
    exact (watching.below state).2.2 ▸ reached
  have begins : takeoverHandle ops.watched d.machine .probeSilent = beginTakeover ops.watched
      { d.machine with tk := { d.machine.tk with silent := d.machine.tk.silent + 1 } } := by
    have watchingState : d.machine.tk.state = .armed ∨ d.machine.tk.state = .suspect := state
    rcases watchingState with armed | suspect <;> simp [takeoverHandle, handleWatching, *]
  have failed (m : Machine (σ × List Obs)) : (beginTakeover ops.watched m).tk.state = .fenceFailed := by
    rw [beginTakeover_fence_fails (show (ops.watched.fence _).1 ≠ 0 from failing _)]
    rfl
  rw [Daemon.tk, Daemon.handle, begins]
  exact failed _

theorem Unanswered.gaveUp {ops : DaemonOps σ} (failing : ∀ ctx, (ops.fence ctx).1 ≠ 0)
    {d : Daemon σ} {tick : Tick} {probeTimeouts : UInt32} {streak : ℕ} (starts : tick.Starts)
    (unanswered : Unanswered probeTimeouts streak d) (reached : probeTimeouts.toNat ≤ streak + 1) :
    GaveUp (onTick ops tick d) := by
  obtain ⟨d₁, before, after, _⟩ := onTick_unanswered ops starts unanswered
  have watching : Watching probeTimeouts streak d₁.tk := before.tk ▸ unanswered.watching
  have inState : d₁.tk.state.begun = false := before.tk ▸ unanswered.inState
  have failed := handle_silence_fails failing watching inState reached
  obtain ⟨new, grown, round⟩ := handle_history ops .probeSilent d₁
  refine ⟨by rw [after.tk, failed], ?_⟩
  have all : calls (onTick ops tick d).history = new := by
    rw [after.calls, grown, calls_append, calls_map_call, before.calls, unanswered.uncalled,
      List.nil_append]
  rw [fenceCount, all]
  cases round with
  | quiet begun still =>
      have same := still inState
      simp [failed, TakeoverState.begun] at same
  | fenceFails ret => rfl
  | adoptFails fences ret _ _ state => simp [failed] at state
  | finishes fences finish _ _ state => simp [failed] at state

theorem GaveUp.tick (ops : DaemonOps σ) {d : Daemon σ} (gaveUp : GaveUp d) (tick : Tick) :
    GaveUp (onTick ops tick d) := by
  rw [onTick_begun ops tick (by rw [gaveUp.state]; rfl)]
  exact gaveUp

theorem first_tick_unanswered (ops : DaemonOps σ) (ctx : σ) (probeTimeouts fenceRetries : UInt32)
    {tick : Tick} (starts : tick.Starts) :
    Unanswered probeTimeouts 0 (onTick ops tick (daemonInit ctx probeTimeouts fenceRetries)) := by
  obtain ⟨expired, started, added⟩ := starts
  have whole : onTick ops tick (daemonInit ctx probeTimeouts fenceRetries) =
      startProbe ops tick (daemonInit ctx probeTimeouts fenceRetries) := by
    simp [onTick, expired, daemonInit, takeoverInit, Daemon.tk, TakeoverState.rank, timeoutPending]
  obtain ⟨quiet, probeFd⟩ := startProbe_quiet ops started added
    (daemonInit ctx probeTimeouts fenceRetries)
  rw [whole]
  refine ⟨?_, ?_, probeFd ▸ started, quiet.calls⟩
  · rw [quiet.tk]
    exact ⟨rfl, fun _ => ⟨rfl, rfl⟩, by simp [daemonInit, takeoverInit, Daemon.tk]⟩
  · rw [quiet.tk]
    rfl

theorem silent_run (ops : DaemonOps σ) (failing : ∀ ctx, (ops.fence ctx).1 ≠ 0) (ctx : σ)
    (probeTimeouts fenceRetries : UInt32) {tick : Tick} (starts : tick.Starts) (n : ℕ) :
    let d := daemonRun ops (daemonInit ctx probeTimeouts fenceRetries) (List.replicate (n + 1) (.tick tick))
    if n = 0 ∨ n < probeTimeouts.toNat then Unanswered probeTimeouts n d else GaveUp d := by
  induction n with
  | zero => exact first_tick_unanswered ops ctx probeTimeouts fenceRetries starts
  | succ n ih =>
      rw [List.replicate_succ', daemonRun_append]
      simp only [Nat.succ_ne_zero, false_or] at ih ⊢
      split
      · rename_i below
        rw [if_pos (by omega)] at ih
        exact ih.next ops starts below
      · rename_i reached
        by_cases before : n = 0 ∨ n < probeTimeouts.toNat
        · rw [if_pos before] at ih
          exact ih.gaveUp failing starts (by omega)
        · rw [if_neg before] at ih
          exact ih.tick ops tick

/-- Over every run in which the probes can be started: a retry that is due is always still going to
be driven exactly if no adopt fails and no fence fails with retries left; and a fence that always
fails against a silent predecessor gets `fence_retries + 1` attempts only if that is one. -/
theorem retries_driven_iff (ops : DaemonOps σ) (ctx : σ) (probeTimeouts fenceRetries : UInt32)
    (events : List Event) (starts : ∀ ev ∈ events, ev.Starts) :
    let run := daemonRun ops (daemonInit ctx probeTimeouts fenceRetries)
    ((∀ reached, reached <+: events → Driven ops (run reached)) ↔
      (∀ ret, .called .adopt ret ∈ (run events).history → ret = 0) ∧
        (fenceRetries = 0 ∨ ∀ ret, .called .fence ret ∈ (run events).history → ret = 0)) ∧
    ((∀ ctx, (ops.fence ctx).1 ≠ 0) → ∀ tick : Tick, tick.Starts →
      ∀ n, n ≠ 0 → probeTimeouts.toNat ≤ n →
      (fenceCount (run (List.replicate (n + 1) (.tick tick))).history = fenceRetries.toNat + 1 ↔
        fenceRetries = 0)) := by
  intro run
  constructor
  · have idle : Idle fenceRetries (daemonInit ctx probeTimeouts fenceRetries).tk ∧
        (daemonInit ctx probeTimeouts fenceRetries).tk.state ≠ .fencing :=
      ⟨⟨rfl, fun _ => rfl⟩, by simp [daemonInit, Daemon.tk, takeoverInit]⟩
    have settled := daemonRun_settled_iff ops idle
      (by simp [daemonInit, Daemon.tk, takeoverInit, Waiting])
      (by simp [daemonInit, Daemon.history, takeoverInit, calls, Unfailed]) events starts
    simpa only [driven_iff, Unfailed, mem_calls] using settled
  · intro failing tick ticking n some enough
    have gaveUp := silent_run ops failing ctx probeTimeouts fenceRetries ticking n
    rw [if_neg (by omega)] at gaveUp
    have once : fenceCount (run (List.replicate (n + 1) (.tick tick))).history = 1 := gaveUp.once
    rw [once, ← UInt32.toNat_inj, UInt32.toNat_zero]
    omega

def brokenFence : DaemonOps Unit :=
  { steadyDaemon with fence := fun ctx => (-ETIMEDOUT, ctx) }

def silentTick : Event := .tick ⟨true, 7, 0, 1, 1⟩

theorem retry_not_driven :
    let d := daemonRun brokenFence (daemonInit () 2 3) [silentTick, silentTick, silentTick]
    Waiting d.tk ∧ ¬ Driven brokenFence d ∧
      daemonRun brokenFence d (List.replicate 20 silentTick) = d ∧ fenceCount d.history = 1 := by
  refine ⟨Or.inl ⟨rfl, by decide⟩, ?_, rfl, rfl⟩
  rw [driven_iff, not_not]
  exact Or.inl ⟨rfl, by decide⟩

theorem retries_driven_steady :
    .called .fence 0 ∈ (daemonRun steadyDaemon (daemonInit () 2 3)
        [silentTick, silentTick, silentTick]).history ∧
      ∀ reached, reached <+: [silentTick, silentTick, silentTick] →
        Driven steadyDaemon (daemonRun steadyDaemon (daemonInit () 2 3) reached) := by
  have history : (daemonRun steadyDaemon (daemonInit () 2 3)
      [silentTick, silentTick, silentTick]).history =
        [.started 1, .result 1 .silent, .started 2, .result 2 .silent, .called .fence 0,
          .called .adopt 0, .called .preserve 0, .called .reap 0, .started 3] := rfl
  refine ⟨by simp [history], ?_⟩
  refine (retries_driven_iff steadyDaemon () 2 3 [silentTick, silentTick, silentTick]
    (by simp [silentTick, Event.Starts])).1.mpr ?_
  simp [history]

end Kmorph
