import Kmorph.Histories
import Kmorph.Retries

/-!
The invariant rule of the event loop: a property of the state machine, its
context and the history holds along every run if the moves the handlers are made
of keep it.
-/

namespace Kmorph

open Histories

variable {σ : Type}

/-- `holds` also sees whether a handover was accepted. `bears` says in which states a silent probe
result may be delivered; before a handover it may be in any. -/
structure DaemonRule (ops : DaemonOps σ) where
  holds : Bool → Machine (σ × List Obs) → Prop
  bears : Bool → Takeover → Prop
  bears_fresh : ∀ tk, bears false tk
  begun : ∀ m, holds true m → m.tk.state.begun = true
  note : ∀ handed tk ctx history o, holds handed ⟨tk, ctx, history⟩ →
    holds handed ⟨tk, ctx, history ++ [o]⟩
  probe : ∀ handed m ev, ev ≠ .request → (ev = .probeSilent → bears handed m.tk) →
    holds handed m → holds handed (takeoverHandle ops.watched m ev)
  network : ∀ handed tk ctx history text next, tk.state.begun = false →
    ops.takeNetwork text ctx = some next → holds handed ⟨tk, ctx, history⟩ →
    holds handed ⟨tk, next, history⟩
  handover : ∀ tk ctx history, tk.state = .armed → holds false ⟨tk, ctx, history⟩ →
    holds true (takeoverHandle ops.watched ⟨tk, ops.dropDump ctx, history ++ [.handover]⟩ .request)

namespace DaemonRule

variable {ops : DaemonOps σ} (rule : DaemonRule ops) {d : Daemon σ}

def Holds (d : Daemon σ) : Prop := rule.holds d.handedOver d.machine

/-- The event does not deliver a silent result in a state that does not bear it. -/
def Bears (d : Daemon σ) : Event → Prop
  | .probeReady err _ =>
      0 ≤ d.probeFd → probeClassify err = .silent → rule.bears d.handedOver d.tk
  | .tick _ | .connection _ _ _ => True

theorem note_holds (holds : rule.Holds d) (o : Obs) : rule.Holds (d.note o) :=
  rule.note _ _ _ _ o holds

theorem send_holds (holds : rule.Holds d) (reply : Except Int String) :
    rule.Holds (d.send reply) := by
  cases reply with
  | ok text => exact rule.note_holds holds _
  | error errno => exact holds

theorem deliverProbe_holds (holds : rule.Holds d) {probe : ℕ} {err : Int} (now : UInt64)
    (bears : probeClassify err = .silent → rule.bears d.handedOver d.tk) :
    rule.Holds (deliverProbe ops probe err now d) := by
  have machine := recordProbe_machine probe err now d
  have handed := (recordProbe_bookkeeping probe err now d).2.2
  have recorded : rule.Holds (recordProbe probe err now d) := by
    rw [Holds, machine, handed]
    exact rule.note_holds holds _
  have tk : (recordProbe probe err now d).machine.tk = d.tk := by
    rw [machine]
    rfl
  simp only [deliverProbe]
  split
  · exact rule.probe _ _ _ (by simp) (by simp) recorded
  · rename_i silent
    refine rule.probe _ _ _ (by simp) (fun _ => ?_) recorded
    rw [tk, Daemon.handle, handed]
    exact bears silent
  · exact recorded

theorem deliverProbe_fresh (holds : rule.Holds d) (fresh : d.handedOver = false) (probe : ℕ)
    (err : Int) (now : UInt64) :
    rule.Holds (deliverProbe ops probe err now d) ∧
      (deliverProbe ops probe err now d).handedOver = false := by
  constructor
  · refine rule.deliverProbe_holds holds now fun _ => ?_
    rw [fresh]
    exact rule.bears_fresh d.tk
  · have recorded := (recordProbe_bookkeeping probe err now d).2.2.trans fresh
    unfold deliverProbe
    cases probeClassify err <;> exact recorded

theorem startProbe_holds (holds : rule.Holds d) (fresh : d.handedOver = false) (tick : Tick) :
    rule.Holds (startProbe ops tick d) := by
  have numbered : rule.Holds (numberProbe d) := rule.note_holds holds _
  have delivered (err : Int) :
      rule.Holds (deliverProbe ops (d.probes + 1) err tick.later (numberProbe d)) :=
    (rule.deliverProbe_fresh numbered fresh _ err _).1
  simp only [startProbe]
  split
  · exact delivered _
  · split
    · exact delivered _
    · exact numbered

theorem onTick_holds (holds : rule.Holds d) (tick : Tick) : rule.Holds (onTick ops tick d) := by
  cases handed : d.handedOver with
  | true =>
      have begun : d.tk.state.begun = true := rule.begun d.machine (handed ▸ holds)
      rw [onTick_begun ops tick begun]
      exact holds
  | false =>
      unfold onTick
      split
      · exact holds
      · split
        · exact holds
        · have timedOut : rule.Holds (timeoutPending ops tick.now d) ∧
              (timeoutPending ops tick.now d).handedOver = false := by
            unfold timeoutPending
            split
            · have closed : rule.Holds { d with probeFd := -1 } := holds
              exact rule.deliverProbe_fresh closed handed _ _ _
            · exact ⟨holds, handed⟩
          exact rule.startProbe_holds timedOut.1 timedOut.2 tick

theorem answerNetwork_holds (holds : rule.Holds d) (text : List Char) (len : ℕ) :
    rule.Holds (answerNetwork ops text len d).1 := by
  unfold answerNetwork
  split
  · exact holds
  · rename_i early
    have watching : d.tk.state.begun = false := by
      simpa using mt TakeoverState.rank_of_begun.mpr early
    split
    · exact holds
    · rename_i next taken
      exact rule.network _ _ _ _ text next watching taken holds

theorem answerRequest_holds (holds : rule.Holds d) (input : List Recv) (now : UInt64) :
    rule.Holds (answerRequest ops input now d).2 := by
  unfold answerRequest
  cases readRequest REQUEST_MAX none [] input with
  | error errno =>
      simp only
      split
      · exact holds
      · exact rule.send_holds holds _
  | ok request =>
      obtain ⟨kind, payload⟩ := request
      cases kind with
      | status =>
          simp only
          exact rule.send_holds holds _
      | handover =>
          simp only
          exact rule.send_holds holds _
      | network =>
          simp only
          exact rule.send_holds (rule.answerNetwork_holds holds _ _) _

theorem answerRequest_armed {input : List Recv} {now : UInt64}
    (accepted : (answerRequest ops input now d).1 = true) :
    (answerRequest ops input now d).2.tk.state = .armed := by
  obtain ⟨d₁, -, sameTk, answer⟩ := answerRequest_answers ops input now d
  have tk : (answerRequest ops input now d).2.tk = d.tk := by
    rcases answer with same | ⟨reply, same⟩
    · rw [same, sameTk]
    · rw [same, ← sameTk]
      cases reply <;> rfl
  rw [tk]
  unfold answerRequest at accepted
  split at accepted
  · split at accepted <;> simp at accepted
  · simp only [answerHandover, decide_eq_true_eq] at accepted
    exact accepted.1
  · simp at accepted
  · simp at accepted

theorem onConnection_holds (holds : rule.Holds d) (input : List Recv) (now : UInt64) :
    rule.Holds (onConnection ops input now d) := by
  have answered := rule.answerRequest_holds holds input now
  unfold onConnection
  simp only
  split
  · rename_i accepted
    have armed := answerRequest_armed accepted
    generalize (answerRequest ops input now d).2 = d₁ at answered armed ⊢
    have fresh : d₁.handedOver = false := by
      by_contra handed
      have begun := rule.begun d₁.machine (by simpa [Holds, handed] using answered)
      rw [show d₁.machine.tk.state = .armed from armed] at begun
      simp [TakeoverState.begun] at begun
    exact rule.handover _ _ _ armed (fresh ▸ answered)
  · exact answered

theorem daemonStep_holds (holds : rule.Holds d) {ev : Event} (bears : rule.Bears d ev) :
    rule.Holds (daemonStep ops d ev) := by
  cases ev with
  | tick tick => exact rule.onTick_holds holds tick
  | probeReady err now =>
      simp only [daemonStep]
      split
      · rename_i outstanding
        have closed : rule.Holds { d with probeFd := -1 } := holds
        exact rule.deliverProbe_holds closed now (bears outstanding)
      · exact holds
  | connection accepted input now =>
      simp only [daemonStep]
      split
      · exact rule.onConnection_holds holds input now
      · exact holds

theorem daemonRun_holds (holds : rule.Holds d) {events : List Event}
    (bears : Always (fun before ev => rule.Bears (daemonRun ops d before) ev) events) :
    rule.Holds (daemonRun ops d events) :=
  bears.foldl_holds rule.Bears rule.Holds holds
    fun _ _ holds bears => rule.daemonStep_holds holds bears

end DaemonRule

/-- A property of the context that every op keeps. -/
structure OpsClosed (ops : TakeoverOps σ) (P : σ → Prop) : Prop where
  fence : ∀ ctx, P ctx → P (ops.fence ctx).2
  adopt : ∀ ctx, P ctx → P (ops.adopt ctx).2
  preserve : ∀ ctx, P ctx → P (ops.preserve ctx).2
  reap : ∀ ctx, P ctx → P (ops.reap ctx).2
  onState : ∀ tk s ctx, P ctx → P (ops.onState tk s ctx)

namespace OpsClosed

variable {ops : TakeoverOps σ} {P : σ → Prop} {m : Machine σ}

theorem continueTakeover (closed : OpsClosed ops P) (held : P m.ctx) :
    P (continueTakeover ops m).ctx := by
  have adopted := closed.adopt _ held
  by_cases succeeded : (ops.adopt m.ctx).1 = 0
  · rw [continueTakeover_adopt_succeeds succeeded]
    refine closed.onState _ _ _ ?_
    have preserved := closed.preserve _ adopted
    simp only [finished]
    split
    · exact closed.reap _ preserved
    · exact preserved
  · rw [continueTakeover_adopt_fails succeeded]
    exact adopted

theorem beginTakeover (closed : OpsClosed ops P) (held : P m.ctx) : P (beginTakeover ops m).ctx := by
  have fenced := closed.fence _ (closed.onState { m.tk with state := .fencing } .fencing _ held)
  by_cases stopped : (ops.fence (fencingMachine ops m).ctx).1 = 0
  · rw [beginTakeover_fence_succeeds stopped]
    exact closed.continueTakeover (closed.onState _ _ _ fenced)
  · rw [beginTakeover_fence_fails stopped]
    exact closed.onState _ _ _ fenced

theorem handleWatching (closed : OpsClosed ops P) (held : P m.ctx) (ev : TakeoverEvent) :
    P (handleWatching ops m ev).ctx := by
  cases ev with
  | probeAlive =>
      simp only [Kmorph.handleWatching]
      split
      · exact closed.onState _ _ _ held
      · exact held
  | probeSilent =>
      simp only [Kmorph.handleWatching]
      split
      · exact closed.beginTakeover held
      · split
        · exact closed.onState _ _ _ held
        · exact held
  | request =>
      simp only [Kmorph.handleWatching]
      split
      · exact closed.beginTakeover held
      · exact held

theorem takeoverHandle (closed : OpsClosed ops P) (held : P m.ctx) (ev : TakeoverEvent) :
    P (takeoverHandle ops m ev).ctx := by
  unfold Kmorph.takeoverHandle
  split
  · exact closed.handleWatching held ev
  · exact closed.handleWatching held ev
  · split
    · exact closed.beginTakeover held
    · exact held
  · exact closed.continueTakeover held
  · exact held
  · exact held

theorem watched {ops : DaemonOps σ} (closed : OpsClosed ops.toTakeoverOps P) :
    OpsClosed ops.watched fun ctx => P ctx.1 :=
  ⟨fun ctx => closed.fence ctx.1, fun ctx => closed.adopt ctx.1, fun ctx => closed.preserve ctx.1,
    fun ctx => closed.reap ctx.1, fun tk s ctx => closed.onState tk s ctx.1⟩

end OpsClosed

end Kmorph
