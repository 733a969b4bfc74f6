import Kmorph.Daemon

/-!
The event loop together with the probe sockets: a reply reaches the socket of
the outstanding probe at some time, and `epoll_wait` reports the socket at some
later time, or the timer first. `NeverMistaken` says that no probe whose reply
had come was taken for silence.
-/

namespace Kmorph

open Histories

variable {σ : Type}

/-- The daemon, and for each probe something came back for the `SO_ERROR` its socket then holds. -/
structure Loop (σ : Type) where
  daemon : Daemon σ
  arrived : List (ℕ × Int)

inductive LoopEvent
  | arrive (err : Int)
  | tick (tick : Tick)
  | probeReady (now : UInt64)
  | connection (accepted : Bool) (input : List Recv) (now : UInt64)
deriving Repr, DecidableEq

/-- What is at the socket of the outstanding probe. -/
def Loop.waiting (w : Loop σ) : Option Int :=
  if w.daemon.probeFd ≥ 0 then w.arrived.lookup w.daemon.pending else none

def Loop.step (ops : DaemonOps σ) (w : Loop σ) : LoopEvent → Loop σ
  | .arrive err =>
      -- A closed socket receives nothing, and a connect ends once.
      if w.daemon.probeFd ≥ 0 ∧ w.waiting = none then
        { w with arrived := w.arrived ++ [(w.daemon.pending, err)] }
      else w
  | .tick tick => { w with daemon := daemonStep ops w.daemon (.tick tick) }
  | .probeReady now =>
      match w.waiting with
      | none => w
      | some err => { w with daemon := daemonStep ops w.daemon (.probeReady err now) }
  | .connection accepted input now =>
      { w with daemon := daemonStep ops w.daemon (.connection accepted input now) }

def loopInit (ctx : σ) (probeTimeouts fenceRetries : UInt32) : Loop σ :=
  ⟨daemonInit ctx probeTimeouts fenceRetries, []⟩

def loopRun (ops : DaemonOps σ) (w : Loop σ) (events : List LoopEvent) : Loop σ :=
  events.foldl (Loop.step ops) w

def Loop.Replied (w : Loop σ) (probe : ℕ) : Prop :=
  ∃ err, (probe, err) ∈ w.arrived ∧ probeClassify err = .alive

def SilentUnanswered (w : Loop σ) : Prop :=
  ∀ probe, w.Replied probe → (probe, .silent) ∉ results w.daemon.history

structure NeverMistaken (w : Loop σ) : Prop where
  silent : SilentUnanswered w
  counted : w.daemon.tk.state.begun = false →
    w.daemon.tk.silent.toNat = (silentProbes w.daemon.history).length ∧
      ∀ probe ∈ silentProbes w.daemon.history, ¬ w.Replied probe

/-- The timer is not handled before a reply that is already at the socket of the outstanding
probe. -/
def ReadFirst (w : Loop σ) : LoopEvent → Prop
  | .tick tick => tick.expired = true → w.daemon.tk.state.rank < TakeoverState.fencing.rank →
      ∀ err, w.waiting = some err → probeClassify err ≠ .alive
  | .arrive _ | .probeReady _ | .connection _ _ _ => True

theorem deliverProbe_results (ops : DaemonOps σ) (probe : ℕ) (err : Int) (now : UInt64)
    (d : Daemon σ) :
    results (deliverProbe ops probe err now d).history =
      results d.history ++ [(probe, probeClassify err)] := by
  have recorded : results (recordProbe probe err now d).history =
      results d.history ++ [(probe, probeClassify err)] := by
    rw [recordProbe_history, results_append, results_result]
  have handled (ev : TakeoverEvent) : results ((recordProbe probe err now d).handle ops ev).history =
      results (recordProbe probe err now d).history := by
    obtain ⟨new, continues⟩ := handle_continues ops ev (recordProbe probe err now d)
    rw [continues.history, results_append, continues.quiet, List.append_nil]
  rw [← recorded]
  unfold deliverProbe
  cases probeClassify err with
  | alive => exact handled _
  | silent => exact handled _
  | error => rfl

theorem deliverProbe_probes (ops : DaemonOps σ) (probe : ℕ) (err : Int) (now : UInt64)
    (d : Daemon σ) : (deliverProbe ops probe err now d).probes = d.probes := by
  have recorded := (recordProbe_bookkeeping probe err now d).1
  unfold deliverProbe
  cases probeClassify err <;> exact recorded

theorem timeoutPending_results (ops : DaemonOps σ) (now : UInt64) (d : Daemon σ) :
    results (timeoutPending ops now d).history =
        results d.history ++ (if d.probeFd ≥ 0 then [(d.pending, .silent)] else []) ∧
      (timeoutPending ops now d).probes = d.probes := by
  unfold timeoutPending
  split
  · exact ⟨deliverProbe_results ops d.pending ETIMEDOUT now { d with probeFd := -1 },
      deliverProbe_probes ops d.pending ETIMEDOUT now { d with probeFd := -1 }⟩
  · simp

theorem startProbe_results (ops : DaemonOps σ) (tick : Tick) (d : Daemon σ) :
    (∃ new, results (startProbe ops tick d).history = results d.history ++ new ∧
        ∀ answer ∈ new, answer.1 = d.probes + 1) ∧
      (startProbe ops tick d).probes = d.probes + 1 := by
  have numbered : results (numberProbe d).history = results d.history := by
    show results (d.history ++ [.started (d.probes + 1)]) = _
    rw [results_append]
    exact List.append_nil _
  have delivered (err : Int) :
      (∃ new, results (deliverProbe ops (d.probes + 1) err tick.later (numberProbe d)).history =
          results d.history ++ new ∧ ∀ answer ∈ new, answer.1 = d.probes + 1) ∧
        (deliverProbe ops (d.probes + 1) err tick.later (numberProbe d)).probes = d.probes + 1 := by
    refine ⟨⟨[(d.probes + 1, probeClassify err)], ?_, by simp⟩,
      deliverProbe_probes ops _ err _ (numberProbe d)⟩
    rw [deliverProbe_results, numbered]
  simp only [startProbe]
  split
  · exact delivered _
  · split
    · exact delivered _
    · refine ⟨⟨[], ?_, by simp⟩, rfl⟩
      rw [List.append_nil]
      exact numbered

theorem onConnection_results (ops : DaemonOps σ) (input : List Recv) (now : UInt64) (d : Daemon σ) :
    results (onConnection ops input now d).history = results d.history ∧
      (onConnection ops input now d).probes = d.probes := by
  have answered : results (answerRequest ops input now d).2.history = results d.history ∧
      (answerRequest ops input now d).2.probes = d.probes := by
    obtain ⟨d₁, continues, _, answer⟩ := answerRequest_answers ops input now d
    have kept : results d₁.history = results d.history := by
      rw [continues.history, List.append_nil]
    rcases answer with same | ⟨reply, same⟩
    · exact same ▸ ⟨kept, continues.probes⟩
    · rw [same]
      cases reply with
      | error _ => exact ⟨kept, continues.probes⟩
      | ok text =>
          refine ⟨?_, continues.probes⟩
          show results (d₁.history ++ [.reply text]) = _
          rw [results_append, kept]
          exact List.append_nil _
  simp only [onConnection]
  split
  · rw [takeHandover_eq]
    obtain ⟨new, continues⟩ := handle_continues ops .request (granted ops (answerRequest ops input now d).2)
    refine ⟨?_, continues.probes.trans answered.2⟩
    rw [continues.history, results_append, continues.quiet, List.append_nil, ← answered.1]
    show results ((answerRequest ops input now d).2.history ++ [.handover]) = _
    rw [results_append]
    exact List.append_nil _
  · exact answered

/-- What the sockets hold is of probes that were started, and at most one thing for each. -/
structure Tracked (probeTimeouts : UInt32) (w : Loop σ) : Prop where
  sound : Sound probeTimeouts w.daemon
  started : ∀ reply ∈ w.arrived, reply.1 ≤ w.daemon.probes
  once : (w.arrived.map Prod.fst).Nodup

theorem lookup_eq_some_of_nodup {replies : List (ℕ × Int)} (once : (replies.map Prod.fst).Nodup)
    (probe : ℕ) (err : Int) : replies.lookup probe = some err ↔ (probe, err) ∈ replies := by
  induction replies with
  | nil => simp
  | cons reply replies ih =>
      obtain ⟨first, found⟩ := reply
      obtain ⟨absent, rest⟩ := List.nodup_cons.mp once
      rw [List.lookup_cons, List.mem_cons, ← ih rest]
      by_cases same : probe = first
      · subst same
        have missing : replies.lookup probe ≠ some err := by
          intro later
          exact absent (List.mem_map.mpr ⟨_, (ih rest).mp later, rfl⟩)
        simp [missing, eq_comm]
      · simp [same, beq_false_of_ne same]

section Steps

variable {ops : DaemonOps σ} {probeTimeouts : UInt32} {w : Loop σ}

theorem Tracked.waiting_iff (tracked : Tracked probeTimeouts w) (err : Int) :
    w.waiting = some err ↔ 0 ≤ w.daemon.probeFd ∧ (w.daemon.pending, err) ∈ w.arrived := by
  rw [← lookup_eq_some_of_nodup tracked.once]
  unfold Loop.waiting
  split
  · rename_i outstanding
    simp [outstanding]
  · rename_i closed
    simp [closed]

theorem Tracked.moved (tracked : Tracked probeTimeouts w) {d : Daemon σ}
    (sound : Sound probeTimeouts d) (grown : w.daemon.probes ≤ d.probes) :
    Tracked probeTimeouts { w with daemon := d } :=
  ⟨sound, fun reply member => (tracked.started reply member).trans grown, tracked.once⟩

theorem step_tracked (tracked : Tracked probeTimeouts w) (ev : LoopEvent) :
    Tracked probeTimeouts (w.step ops ev) := by
  cases ev with
  | arrive err =>
      simp only [Loop.step]
      split
      · rename_i free
        refine ⟨tracked.sound, ?_, ?_⟩
        · intro reply member
          rcases List.mem_append.mp member with old | new
          · exact tracked.started reply old
          · obtain rfl := List.mem_singleton.mp new
            exact (tracked.sound.probed.pending free.1).2.1
        · rw [List.map_append, List.nodup_append]
          refine ⟨tracked.once, by simp, ?_⟩
          rintro probe old _ new rfl
          obtain ⟨⟨_, found⟩, member, rfl⟩ := List.mem_map.mp old
          obtain rfl : _ = w.daemon.pending := by simpa using new
          have occupied := (tracked.waiting_iff found).mpr ⟨free.1, member⟩
          exact absurd occupied (by simp [free.2])
      · exact tracked
  | tick tick =>
      refine tracked.moved (onTick_sound tracked.sound tick) ?_
      show _ ≤ (onTick ops tick w.daemon).probes
      unfold onTick
      split
      · exact le_rfl
      · split
        · exact le_rfl
        · rw [(startProbe_results ops tick _).2, (timeoutPending_results ops _ _).2]
          exact Nat.le_succ _
  | probeReady now =>
      simp only [Loop.step]
      split
      · exact tracked
      · refine tracked.moved (daemonStep_sound tracked.sound _) ?_
        simp only [daemonStep]
        split
        · exact (deliverProbe_probes ops _ _ _ { w.daemon with probeFd := -1 }).ge
        · exact le_rfl
  | connection accepted input now =>
      refine tracked.moved (daemonStep_sound tracked.sound _) ?_
      simp only [daemonStep]
      split
      · exact (onConnection_results ops input now w.daemon).2.ge
      · exact le_rfl

/-- What a probe that was answered gets from a tick that starts another: a timeout, if it is the one
outstanding. -/
theorem startProbe_silent_iff (tracked : Tracked probeTimeouts w) (tick : Tick) {probe : ℕ}
    (replied : w.Replied probe) :
    (probe, ProbeResult.silent) ∈
        results (startProbe ops tick (timeoutPending ops tick.now w.daemon)).history ↔
      (probe, ProbeResult.silent) ∈ results w.daemon.history ∨
        0 ≤ w.daemon.probeFd ∧ probe = w.daemon.pending := by
  obtain ⟨⟨new, started, fresh⟩, _⟩ :=
    startProbe_results ops tick (timeoutPending ops tick.now w.daemon)
  obtain ⟨timedOut, same⟩ := timeoutPending_results ops tick.now w.daemon
  obtain ⟨err, member, _⟩ := replied
  have known : probe ≤ w.daemon.probes := tracked.started _ member
  have other : (probe, ProbeResult.silent) ∉ new := by
    intro found
    have number := fresh _ found
    rw [same] at number
    have : probe = w.daemon.probes + 1 := number
    omega
  rw [started, timedOut, List.mem_append, List.mem_append]
  split
  · rename_i outstanding
    simp [other, outstanding]
  · rename_i closed
    simp [other, closed]

theorem onTick_unanswered_iff (tracked : Tracked probeTimeouts w) (tick : Tick) :
    SilentUnanswered (w.step ops (.tick tick)) ↔
      SilentUnanswered w ∧ ReadFirst w (.tick tick) := by
  simp only [Loop.step, daemonStep, onTick, ReadFirst]
  split
  · rename_i unread
    simp [unread]
  · rename_i expired
    split
    · rename_i late
      have noTick : ¬ w.daemon.tk.state.rank < TakeoverState.fencing.rank := by omega
      simp [noTick]
    · rename_i early
      constructor
      · intro unanswered
        refine ⟨?_, ?_⟩
        · intro probe replied member
          exact unanswered probe replied
            ((startProbe_silent_iff tracked tick replied).mpr (Or.inl member))
        · intro _ _ err here alive
          obtain ⟨outstanding, member⟩ := (tracked.waiting_iff err).mp here
          exact unanswered _ ⟨err, member, alive⟩
            ((startProbe_silent_iff tracked tick ⟨err, member, alive⟩).mpr (Or.inr ⟨outstanding, rfl⟩))
      · rintro ⟨unanswered, readFirst⟩ probe replied member
        rcases (startProbe_silent_iff tracked tick replied).mp member with old | ⟨outstanding, rfl⟩
        · exact unanswered probe replied old
        · obtain ⟨err, member, alive⟩ := replied
          exact readFirst (by simpa using expired) (by omega) err
            ((tracked.waiting_iff err).mpr ⟨outstanding, member⟩) alive

theorem arrive_unanswered_iff (tracked : Tracked probeTimeouts w) (err : Int) :
    SilentUnanswered (w.step ops (.arrive err)) ↔ SilentUnanswered w := by
  simp only [Loop.step]
  split
  · rename_i free
    constructor
    · rintro unanswered probe ⟨err, member, alive⟩
      exact unanswered probe ⟨err, List.mem_append_left _ member, alive⟩
    · rintro unanswered probe ⟨err, member, alive⟩ silent
      rcases List.mem_append.mp member with old | new
      · exact unanswered probe ⟨err, old, alive⟩ silent
      · obtain ⟨rfl, _⟩ : probe = w.daemon.pending ∧ _ := by simpa using new
        exact absurd ((tracked.sound.probed.pending free.1).2.2 _ silent) (lt_irrefl _)
  · exact Iff.rfl

theorem probeReady_unanswered_iff (tracked : Tracked probeTimeouts w) (now : UInt64) :
    SilentUnanswered (w.step ops (.probeReady now)) ↔ SilentUnanswered w := by
  simp only [Loop.step]
  cases here : w.waiting with
  | none => exact Iff.rfl
  | some err =>
      obtain ⟨outstanding, member⟩ := (tracked.waiting_iff err).mp here
      have delivered : results (daemonStep ops w.daemon (.probeReady err now)).history =
          results w.daemon.history ++ [(w.daemon.pending, probeClassify err)] := by
        simp only [daemonStep]
        rw [if_pos outstanding]
        exact deliverProbe_results ops _ _ _ { w.daemon with probeFd := -1 }
      constructor
      · intro unanswered probe replied silent
        refine unanswered probe replied ?_
        show _ ∈ results (daemonStep ops w.daemon (.probeReady err now)).history
        rw [delivered]
        exact List.mem_append_left _ silent
      · rintro unanswered probe ⟨other, arrived, alive⟩ silent
        change _ ∈ results (daemonStep ops w.daemon (.probeReady err now)).history at silent
        rw [delivered] at silent
        rcases List.mem_append.mp silent with old | new
        · exact unanswered probe ⟨other, arrived, alive⟩ old
        · obtain ⟨rfl, kind⟩ : probe = w.daemon.pending ∧ ProbeResult.silent = probeClassify err := by
            simpa using new
          -- Only one thing is at the socket, so the result delivered is that of the reply.
          have same := (tracked.waiting_iff other).mpr ⟨outstanding, arrived⟩
          obtain rfl : err = other := by simpa [here] using same
          rw [alive] at kind
          exact absurd kind (by decide)

/-- A step leaves every reply uncounted exactly if they were so before it and it reads first. -/
theorem step_unanswered_iff (tracked : Tracked probeTimeouts w) (ev : LoopEvent) :
    SilentUnanswered (w.step ops ev) ↔ SilentUnanswered w ∧ ReadFirst w ev := by
  cases ev with
  | tick tick => exact onTick_unanswered_iff tracked tick
  | arrive err =>
      rw [arrive_unanswered_iff tracked, ReadFirst, and_true]
  | probeReady now =>
      rw [probeReady_unanswered_iff tracked, ReadFirst, and_true]
  | connection accepted input now =>
      have quiet : results (daemonStep ops w.daemon (.connection accepted input now)).history =
          results w.daemon.history := by
        simp only [daemonStep]
        split
        · exact (onConnection_results ops input now w.daemon).1
        · rfl
      simp only [SilentUnanswered, Loop.step, ReadFirst, and_true, quiet]
      exact Iff.rfl

end Steps

theorem silent_of_mem_silentProbes {history : List Obs} {probe : ℕ}
    (counted : probe ∈ silentProbes history) : (probe, .silent) ∈ results history := by
  unfold silentProbes at counted
  generalize results history = all at counted ⊢
  induction all using List.reverseRecOn with
  | nil => simp at counted
  | append_singleton answers answer ih =>
      obtain ⟨other, r⟩ := answer
      rw [List.foldl_append] at counted
      cases r with
      | alive => simp [nextSilent] at counted
      | silent =>
          rcases List.mem_append.mp counted with old | new
          · exact List.mem_append_left _ (ih old)
          · obtain rfl := List.mem_singleton.mp new
            simp
      | error => exact List.mem_append_left _ (ih counted)

theorem neverMistaken_iff {probeTimeouts : UInt32} {w : Loop σ} (tracked : Tracked probeTimeouts w) :
    NeverMistaken w ↔ SilentUnanswered w := by
  constructor
  · exact NeverMistaken.silent
  · intro unanswered
    refine ⟨unanswered, ?_⟩
    intro unbegun
    have watching := tracked.sound.guarded.watching
    refine ⟨?_, ?_⟩
    · rcases TakeoverState.begun_eq_false_iff.mp unbegun with armed | suspect
      · obtain ⟨counter, streak⟩ := watching.armed armed
        rw [counter, streak]
        rfl
      · exact (watching.suspect suspect).1
    · intro probe counted replied
      exact unanswered probe replied (silent_of_mem_silentProbes counted)

theorem loopRun_tracked (ops : DaemonOps σ) (ctx : σ) (probeTimeouts fenceRetries : UInt32)
    (events : List LoopEvent) :
    Tracked probeTimeouts (loopRun ops (loopInit ctx probeTimeouts fenceRetries) events) := by
  refine List.foldlRecOn events (Loop.step ops) ?_ ?_
  · exact ⟨daemonInit_sound ctx probeTimeouts fenceRetries, by simp [loopInit], by simp [loopInit]⟩
  · intro w tracked ev _
    exact step_tracked tracked ev

/-- A probe that was answered is never taken for silence in exactly the runs where each tick comes
after the reply at the socket, if there is one, was read. -/
theorem neverMistaken_iff_readFirst (ops : DaemonOps σ) (ctx : σ)
    (probeTimeouts fenceRetries : UInt32) (events : List LoopEvent) :
    NeverMistaken (loopRun ops (loopInit ctx probeTimeouts fenceRetries) events) ↔
      Always (fun before ev =>
        ReadFirst (loopRun ops (loopInit ctx probeTimeouts fenceRetries) before) ev) events := by
  rw [neverMistaken_iff (loopRun_tracked ops ctx probeTimeouts fenceRetries events)]
  induction events using List.reverseRecOn with
  | nil => simp [SilentUnanswered, Loop.Replied, loopRun, loopInit]
  | append_singleton events ev ih =>
      have last : loopRun ops (loopInit ctx probeTimeouts fenceRetries) (events ++ [ev]) =
          (loopRun ops (loopInit ctx probeTimeouts fenceRetries) events).step ops ev := by
        simp [loopRun]
      rw [last, always_append_singleton, ← ih]
      exact step_unanswered_iff (loopRun_tracked ops ctx probeTimeouts fenceRetries events) ev

theorem reply_taken_for_silence :
    let w := loopRun steadyDaemon (loopInit () 3 1)
      [.tick ⟨true, 7, 0, 1, 1⟩, .arrive ECONNRESET, .tick ⟨true, 8, 0, 2, 2⟩]
    w.Replied 1 ∧ (1, .silent) ∈ results w.daemon.history ∧ w.daemon.tk.silent = 1 ∧
      ¬ NeverMistaken w := by
  intro w
  have replied : w.Replied 1 := ⟨ECONNRESET, by decide, rfl⟩
  have silent : (1, ProbeResult.silent) ∈ results w.daemon.history := by decide
  exact ⟨replied, silent, by decide, fun never => never.silent 1 replied silent⟩

end Kmorph
