import Kmorph.Retries
import Kmorph.UpgradeCore
import Mathlib.Tactic.IntervalCases

/-!
One `kmorph upgrade` beside `kmorphd`, in every interleaving. What was frozen for
the handover is still frozen when its fence succeeds, in every run that thaws only
once the request can no longer lead to a fence.
-/

namespace Kmorph

variable {σ : Type} {ops : DaemonOps σ} {d d' : Daemon σ}

theorem answerRequest_of_error {input : List Recv} {errno : Int} (ops : DaemonOps σ) (now : UInt64)
    (d : Daemon σ) (failed : readRequest REQUEST_MAX none [] input = .error errno) :
    (answerRequest ops input now d).1 = false := by
  simp only [answerRequest, failed]
  split
  · rfl
  · rfl

theorem answerRequest_empty {input : List Recv} (ops : DaemonOps σ) (now : UInt64) (d : Daemon σ)
    (nothing : input.flatMap Recv.bytes = []) : (answerRequest ops input now d).1 = false := by
  have failed : ∃ errno, readRequest REQUEST_MAX none [] input = .error errno := by
    cases input with
    | nil => exact ⟨_, rfl⟩
    | cons first rest =>
        cases first with
        | data bytes =>
            obtain rfl : bytes = [] := by
              simp only [List.flatMap_cons, List.append_eq_nil_iff] at nothing
              exact nothing.1
            exact ⟨-ECONNRESET, by simp [readRequest, readFrame, frameStep, Except.map]⟩
        | timeout => exact ⟨_, rfl⟩
        | closed => exact ⟨_, rfl⟩
        | error errno => exact ⟨_, rfl⟩
  obtain ⟨errno, failed⟩ := failed
  exact answerRequest_of_error ops now d failed

theorem answerRequest_accepts {input : List Recv} {now : UInt64}
    (accepted : (answerRequest ops input now d).1 = true) : d.tk.state = .armed := by
  cases request : readRequest REQUEST_MAX none [] input with
  | error errno => simp [answerRequest_of_error ops now d request] at accepted
  | ok request' =>
      obtain ⟨kind, payload⟩ := request'
      cases kind with
      | handover =>
          simp only [answerRequest, request, answerHandover, decide_eq_true_eq] at accepted
          exact accepted.1
      | status => simp [answerRequest, request] at accepted
      | network => simp [answerRequest, request] at accepted

theorem answerRequest_probeFd (ops : DaemonOps σ) (input : List Recv) (now : UInt64) (d : Daemon σ) :
    (answerRequest ops input now d).2.probeFd = d.probeFd := by
  obtain ⟨d₁, continues, -, answer⟩ := answerRequest_answers ops input now d
  rcases answer with same | ⟨reply, same⟩
  · rw [same, continues.probeFd]
  · rw [same, ← continues.probeFd]
    cases reply <;> rfl

structure Handed (d : Daemon σ) : Prop where
  begun : d.tk.state.begun = true
  fate : (.fence, 0) ∈ calls d.history ∨ d.tk.state = .fenceFailed

theorem Handed.oneEvent (handed : Handed d) (event : OneEvent ops d d') : Handed d' := by
  obtain ⟨new, grown, round⟩ := event.round
  refine ⟨round.begun.mpr (.inl handed.begun), ?_⟩
  rw [grown, List.mem_append]
  cases round with
  | quiet same => simpa [same handed.begun] using handed.fate
  | fenceFails ret _ _ state => exact .inr state
  | adoptFails fences ret stopped | finishes fences finish stopped =>
      rcases stopped with ⟨-, fenced⟩ | rfl
      · rcases handed.fate with done | failed
        · exact .inl (.inl done)
        · simp [failed] at fenced
      · exact .inl (.inr (by simp))

theorem takeHandover_handed (ops : DaemonOps σ) (armed : d.tk.state = .armed) :
    Handed (takeHandover ops d) := by
  obtain ⟨ret, rest, history⟩ := takeHandover_fences ops armed
  obtain ⟨new, grown, round⟩ := (takeHandover_oneEvent ops d).round
  have fence : (.fence, ret) ∈ new := by
    rw [history, calls_append, List.append_cancel_left_eq] at grown
    rw [← grown]
    simp [calls, Obs.asCall]
  refine ⟨round.begun.mpr (.inr ⟨ret, fence⟩), ?_⟩
  rw [grown, List.mem_append]
  cases round with
  | quiet => simp at fence
  | fenceFails ret _ _ state => exact .inr state
  | adoptFails fences ret stopped | finishes fences finish stopped =>
      rcases stopped with ⟨-, fenced⟩ | rfl
      · simp [armed] at fenced
      · exact .inl (.inr (by simp))

structure Stuck (d : Daemon σ) : Prop where
  failed : d.tk.state = .fenceFailed
  spent : 0 ≤ d.probeFd → ¬ d.tk.fenceAttempts ≤ d.tk.fenceRetries

theorem deliverProbe_spent (ops : DaemonOps σ) (probe : ℕ) (err : Int) (now : UInt64)
    (failed : d.tk.state = .fenceFailed) (spent : ¬ d.tk.fenceAttempts ≤ d.tk.fenceRetries) :
    Quiet d (deliverProbe ops probe err now d) := by
  have recorded := recordProbe_quiet probe err now d
  have ignored (ev : TakeoverEvent) :
      (recordProbe probe err now d).handle ops ev = recordProbe probe err now d := by
    have state : (recordProbe probe err now d).machine.tk = d.tk := recorded.tk
    simp [Daemon.handle, takeoverHandle, state, failed, spent]
  unfold deliverProbe
  cases probeClassify err with
  | alive =>
      simp only [ignored]
      exact recorded
  | silent =>
      simp only [ignored]
      exact recorded
  | error => exact recorded

theorem daemonStep_stuck (ops : DaemonOps σ) (stuck : Stuck d) (ev : Event) :
    Stuck (daemonStep ops d ev) ∧ Quiet d (daemonStep ops d ev) := by
  have begun : d.tk.state.begun = true := by rw [stuck.failed]; rfl
  cases ev with
  | tick tick =>
      rw [daemonStep, onTick_begun ops tick begun]
      exact ⟨stuck, Quiet.refl d⟩
  | probeReady err now =>
      simp only [daemonStep]
      split
      · rename_i pending
        have quiet := (closed_quiet d).trans
          (deliverProbe_spent ops d.pending err now stuck.failed (stuck.spent pending))
        refine ⟨⟨quiet.tk ▸ stuck.failed, ?_⟩, quiet⟩
        rw [onProbeReady, deliverProbe_probeFd]
        simp
      · exact ⟨stuck, Quiet.refl d⟩
  | connection accepted input now =>
      simp only [daemonStep]
      split
      · have refused : (answerRequest ops input now d).1 ≠ true := by
          intro agreed
          simpa [stuck.failed] using answerRequest_accepts agreed
        have quiet := answerRequest_quiet ops input now d
        rw [onConnection, if_neg refused]
        refine ⟨⟨quiet.tk ▸ stuck.failed, ?_⟩, quiet⟩
        rw [answerRequest_probeFd, quiet.tk]
        exact stuck.spent
      · exact ⟨stuck, Quiet.refl d⟩

/-- The request of the upgrade can still lead to a fence: it is queued, or its handover is about to
be taken, or its fence failed with attempts and a probe left. -/
def Pending (s : Upgrade σ) : Prop :=
  s.link = .queued true ∨ s.accepted = true ∨
    s.agreed = true ∧ s.daemon.tk.state = .fenceFailed ∧
      s.daemon.tk.fenceAttempts ≤ s.daemon.tk.fenceRetries ∧ 0 ≤ s.daemon.probeFd

def Intact (s : Upgrade σ) : Prop :=
  s.agreed = true → s.fenced = true → ∀ path ∈ s.froze, path ∈ s.frozen

structure Closed (s : Upgrade σ) : Prop where
  unqueued : s.link ≠ .queued true
  notDue : s.accepted = false
  stuck : s.agreed = true → s.fenced = false ∧ Stuck s.daemon

structure Kept (s : Upgrade σ) : Prop where
  frozen : (∀ ret, s.client ≠ .returned ret) → ∀ path ∈ s.froze, path ∈ s.frozen
  closed : ∀ ret, s.client = .returned ret → Closed s
  early : s.client = .starting ∨ s.client = .connecting → s.link = .absent
  served : s.agreed = true → s.link = .served
  due : s.accepted = true → s.agreed = true ∧ s.daemon.tk.state = .armed
  handed : s.agreed = true → s.accepted = false → Handed s.daemon

theorem fenced_iff (s : Upgrade σ) : s.fenced = true ↔ (.fence, 0) ∈ calls s.daemon.history := by
  rw [mem_calls, Upgrade.fenced, List.contains_iff_mem]

variable {s : Upgrade σ}

theorem Kept.intact (kept : Kept s) : Intact s := by
  intro agreed fenced
  refine kept.frozen ?_
  intro ret returned
  have notFenced := ((kept.closed ret returned).stuck agreed).1
  simp [notFenced] at fenced

theorem Kept.unserved (kept : Kept s) (unserved : s.link ≠ .served) :
    s.agreed = false ∧ s.accepted = false := by
  have notAgreed : s.agreed = false := by
    by_contra agreed
    exact unserved (kept.served (by simpa using agreed))
  refine ⟨notAgreed, ?_⟩
  by_contra due
  have agreed := (kept.due (by simpa using due)).1
  simp [notAgreed] at agreed

theorem Kept.goesOn (kept : Kept s) (client : Client) (link : Link)
    (was : ∀ ret, s.client ≠ .returned ret) (stays : ∀ ret, client ≠ .returned ret)
    (early : client = .starting ∨ client = .connecting → link = .absent)
    (served : s.agreed = true → link = .served) :
    Kept { s with client := client, link := link } :=
  ⟨fun _ => kept.frozen was, fun ret returned => absurd returned (stays ret), early, served,
    kept.due, kept.handed⟩

theorem Kept.returns (kept : Kept s) (ret : Int) (closed : Closed s) :
    Kept { s with client := .returned ret } :=
  ⟨fun open_ => absurd rfl (open_ ret), fun _ _ => ⟨closed.unqueued, closed.notDue, closed.stuck⟩,
    by simp, kept.served, kept.due, kept.handed⟩

theorem Kept.prepare (kept : Kept s) (starting : s.client = .starting) (p : Preparation) :
    Kept (prepare p s) := by
  have absent := kept.early (.inl starting)
  obtain ⟨notAgreed, notDue⟩ := kept.unserved (by simp [absent])
  have closed : Closed s := ⟨by simp [absent], notDue, by simp [notAgreed]⟩
  unfold Kmorph.prepare
  split
  · exact kept.returns _ closed
  · split
    · exact kept.returns _ closed
    · split
      · exact kept.returns _ closed
      · split
        · exact kept.returns _ closed
        · rename_i set _
          have froze : Kept { s with
              frozen := (freezeAll p.freeze p.thaw set s.frozen).2
              froze := (freezeAll p.freeze p.thaw set s.frozen).2 } :=
            ⟨fun _ path member => member, fun ret returned => by simp [starting] at returned,
              kept.early, kept.served, kept.due, kept.handed⟩
          simp only
          split
          · exact froze.returns _ ⟨closed.unqueued, closed.notDue, closed.stuck⟩
          · exact ⟨fun _ path member => member, fun ret returned => by simp at returned,
              fun _ => absent, kept.served, kept.due, kept.handed⟩

theorem Kept.receive (kept : Kept s) (waiting : s.client = .waiting) (n : ℕ) (reply : String) :
    Kept (receive n reply s) := by
  have went (client : Client) (stays : ∀ ret, client ≠ .returned ret)
      (late : client ≠ .starting ∧ client ≠ .connecting) : Kept { s with client := client } :=
    kept.goesOn client s.link (by simp [waiting]) stays
      (fun early => (early.elim late.1 late.2).elim) kept.served
  simp only [Kmorph.receive]
  split
  · exact went _ (by simp) (by simp)
  · split
    · exact went _ (by simp) (by simp)
    · exact went _ (by simp) (by simp)

theorem Kept.thaws (kept : Kept s) (ret : Int) (alive : s.fenced = false) (settled : ¬ Pending s)
    (thaw : Path → Int) :
    Kept { s with client := .returned ret, frozen := thawAll thaw s.set s.frozen } := by
  simp only [Pending, not_or] at settled
  obtain ⟨unqueued, notDue, notRetried⟩ := settled
  refine ⟨fun open_ => absurd rfl (open_ ret), ?_, by simp, kept.served, kept.due, kept.handed⟩
  rintro - -
  refine ⟨unqueued, by simpa using notDue, ?_⟩
  intro agreed
  have failed : s.daemon.tk.state = .fenceFailed := by
    refine (kept.handed agreed (by simpa using notDue)).fate.resolve_left ?_
    rw [← fenced_iff, alive]
    simp
  refine ⟨alive, failed, ?_⟩
  intro pending attempts
  exact notRetried ⟨agreed, failed, attempts, pending⟩

theorem Kept.clientStep (kept : Kept s) (alive : s.fenced = false) (step : ClientStep)
    (careful : ∀ thaw, step = .thaw thaw → ¬ Pending s) : Kept (clientStep s step) := by
  have went (client : Client) (link : Link) (was : ∀ ret, s.client ≠ .returned ret)
      (stays : ∀ ret, client ≠ .returned ret) (late : client ≠ .starting ∧ client ≠ .connecting)
      (served : s.agreed = true → link = .served) : Kept { s with client := client, link := link } :=
    kept.goesOn client link was stays (fun early => (early.elim late.1 late.2).elim) served
  unfold Kmorph.clientStep
  split
  · exact kept.prepare ‹_› _
  · rename_i connecting
    have absent := kept.early (.inr connecting)
    have unserved := (kept.unserved (by simp [absent])).1
    refine went _ _ (by simp [connecting]) ?_ ?_ (by simp [unserved])
    · intro ret
      split <;> simp
    · split <;> simp
  · rename_i connected
    split
    · refine went _ _ (by simp [connected]) (by simp) (by simp) ?_
      intro agreed
      simp [kept.served agreed]
    · exact went _ s.link (by simp [connected]) (by simp) (by simp) kept.served
  · rename_i waiting
    split
    · exact kept.receive waiting _ _
    · exact kept
  · rename_i waiting
    exact went _ s.link (by simp [waiting]) (by simp) (by simp) kept.served
  · rename_i sleeping
    exact went _ s.link (by simp [sleeping]) (by simp) (by simp) kept.served
  · exact kept.thaws _ alive (careful _ rfl) _
  · exact kept

theorem Kept.serve (kept : Kept s) {sent : Bool} {input : List Recv} (queued : s.link = .queued sent)
    (delivered : deliverable sent input = true) (ops : DaemonOps σ) (now : UInt64) :
    Kept (serve ops input now s) := by
  have quiet := answerRequest_quiet ops input now s.daemon
  refine ⟨kept.frozen, ?_, ?_, fun _ => rfl, ?_, ?_⟩
  · intro ret returned
    have closed := kept.closed ret returned
    -- The client has returned with nothing queued but a connection on which it sent nothing.
    obtain rfl : sent = false := by
      by_contra really
      exact closed.unqueued (by simpa [really] using queued)
    have nothing : input.flatMap Recv.bytes = [] := by
      simpa [deliverable] using delivered
    have refused := answerRequest_empty ops now s.daemon nothing
    exact ⟨by simp [Kmorph.serve], refused, fun agreed => by simp [Kmorph.serve, refused] at agreed⟩
  · intro early
    have absent := kept.early early
    simp [queued] at absent
  · intro due
    exact ⟨due, quiet.tk.symm ▸ answerRequest_accepts due⟩
  · intro agreed notDue
    exact absurd (agreed.symm.trans notDue) (by simp)

theorem Kept.takeHandover (kept : Kept s) (due : s.accepted = true) (ops : DaemonOps σ) :
    Kept { s with daemon := takeHandover ops s.daemon, accepted := false } := by
  obtain ⟨agreed, armed⟩ := kept.due due
  refine ⟨kept.frozen, ?_, kept.early, kept.served, by simp, ?_⟩
  · intro ret returned
    have notDue := (kept.closed ret returned).notDue
    simp [due] at notDue
  · rintro - -
    exact takeHandover_handed ops armed

theorem daemonStep_begun (ops : DaemonOps σ) (begun : d.tk.state.begun = true) (ev : Event) :
    OneEvent ops d (daemonStep ops d ev) := by
  cases ev with
  | tick tick =>
      rw [daemonStep, onTick_begun ops tick begun]
      exact (Quiet.refl d).oneEvent ops
  | probeReady err now => exact daemonStep_oneEvent ops d trivial
  | connection accepted input now => exact daemonStep_oneEvent ops d trivial

theorem Kept.daemonStep (kept : Kept s) (notDue : s.accepted = false) (ops : DaemonOps σ) (ev : Event) :
    Kept { s with daemon := daemonStep ops s.daemon ev } := by
  refine ⟨kept.frozen, ?_, kept.early, kept.served, ?_, ?_⟩
  · intro ret returned
    obtain ⟨unqueued, -, stuck⟩ := kept.closed ret returned
    refine ⟨unqueued, notDue, ?_⟩
    intro agreed
    obtain ⟨notFenced, stuck⟩ := stuck agreed
    -- After the thaw the fence has failed for good, so no event of the daemon calls it.
    obtain ⟨still, quiet⟩ := daemonStep_stuck ops stuck ev
    refine ⟨?_, still⟩
    rw [← Bool.not_eq_true, fenced_iff] at notFenced ⊢
    rwa [quiet.calls]
  · intro due
    simp [notDue] at due
  · intro agreed _
    have handed := kept.handed agreed notDue
    exact handed.oneEvent (daemonStep_begun ops handed.begun ev)

theorem upgradeStep_kept (ops : DaemonOps σ) (kept : Kept s) (step : UpgradeStep)
    (careful : ∀ thaw, step = .client (.thaw thaw) → ¬ Pending s) : Kept (upgradeStep ops s step) := by
  cases step with
  | client step =>
      simp only [upgradeStep]
      split
      · exact kept
      · rename_i alive
        refine kept.clientStep (by simpa using alive) step ?_
        rintro thaw rfl
        exact careful thaw rfl
  | serve input now =>
      simp only [upgradeStep]
      split
      · rename_i queued
        split
        · rename_i ready
          simp only [Bool.and_eq_true] at ready
          exact kept.serve queued ready.2 ops now
        · exact kept
      · exact kept
      · exact kept
  | takeHandover =>
      simp only [upgradeStep]
      split
      · exact kept.takeHandover ‹_› ops
      · exact kept
  | daemon ev =>
      simp only [upgradeStep]
      split
      · exact kept
      · rename_i notDue
        exact kept.daemonStep (by simpa using notDue) ops ev

theorem upgradeInit_kept (d : Daemon σ) : Kept (upgradeInit d) :=
  ⟨by simp [upgradeInit], by simp [upgradeInit], by simp [upgradeInit], by simp [upgradeInit],
    by simp [upgradeInit], by simp [upgradeInit]⟩

/-- In every interleaving that thaws only when no fence of the handover is to come, its fence
succeeds only while everything frozen for it is frozen. -/
theorem upgradeRun_intact (ops : DaemonOps σ) (ctx : σ) (probeTimeouts fenceRetries : UInt32)
    (steps : List UpgradeStep)
    (careful : ∀ before thaw, before ++ [.client (.thaw thaw)] <+: steps →
      ¬ Pending (upgradeRun ops (upgradeInit (daemonInit ctx probeTimeouts fenceRetries)) before)) :
    ∀ reached, reached <+: steps →
      Intact (upgradeRun ops (upgradeInit (daemonInit ctx probeTimeouts fenceRetries)) reached) := by
  have all : ∀ reached, reached <+: steps →
      Kept (upgradeRun ops (upgradeInit (daemonInit ctx probeTimeouts fenceRetries)) reached) := by
    intro reached
    induction reached using List.reverseRecOn with
    | nil => exact fun _ => upgradeInit_kept _
    | append_singleton reached step ih =>
        intro inside
        rw [upgradeRun, List.foldl_append]
        refine upgradeStep_kept ops (ih ((List.prefix_append _ _).trans inside)) step ?_
        rintro thaw rfl
        exact careful reached thaw inside
  intro reached inside
  exact (all reached inside).intact

def plainPreparation : Preparation :=
  ⟨0, 0, .ok [['/']], fun _ => 0, fun _ => 0⟩

def requestSteps : List UpgradeStep :=
  (aliveEvents ++ [Event.tick ⟨true, 8, 0, 3, 3⟩]).map UpgradeStep.daemon ++
    [.client (.prepare plainPreparation), .client (.connect 0), .client (.send 0)]

def answerSteps : List UpgradeStep := [.serve [.data "handover\n".toList] 4, .takeHandover]

/-- The client times out and thaws before `kmorphd` gets to the request. -/
def lateAnswer : List UpgradeStep :=
  requestSteps ++ [.client (.recvFails (-ETIMEDOUT)), .client (.thaw fun _ => 0)] ++ answerSteps

/-- The fence fails, the client waits its ten seconds and thaws, and the probe that was still out
then ends in silence. -/
def lateRetry : List UpgradeStep :=
  requestSteps ++ answerSteps ++
    [.client (.recv 100), .client .wake, .client (.thaw fun _ => 0),
      .daemon (.probeReady ETIMEDOUT 5)]

def flakyFence : DaemonOps ℕ where
  fence n := (if n = 0 then -ETIMEDOUT else 0, n + 1)
  adopt n := (0, n)
  preserve n := (0, n)
  reap n := (0, n)
  onState _ _ n := n
  dropDump := id
  takeNetwork _ _ := none

theorem fenced_while_thawed :
    ¬ Intact (upgradeRun steadyDaemon (upgradeInit (daemonInit () 3 1)) lateAnswer) ∧
      ¬ Intact (upgradeRun flakyFence (upgradeInit (daemonInit 0 3 1)) lateRetry) := by
  constructor
  · intro intact
    have froze : (upgradeRun steadyDaemon (upgradeInit (daemonInit () 3 1)) lateAnswer).froze =
        [['/']] := rfl
    have frozen : (upgradeRun steadyDaemon (upgradeInit (daemonInit () 3 1)) lateAnswer).frozen =
        [] := rfl
    have still := intact rfl rfl ['/'] (by simp [froze])
    simp [frozen] at still
  · intro intact
    have froze : (upgradeRun flakyFence (upgradeInit (daemonInit 0 3 1)) lateRetry).froze =
        [['/']] := rfl
    have frozen : (upgradeRun flakyFence (upgradeInit (daemonInit 0 3 1)) lateRetry).frozen =
        [] := rfl
    have still := intact rfl rfl ['/'] (by simp [froze])
    simp [frozen] at still

theorem lateRetry_thaw {before : List UpgradeStep} {thaw : Path → Int}
    (inside : before ++ [.client (.thaw thaw)] <+: lateRetry) :
    before = requestSteps ++ answerSteps ++ [.client (.recv 100), .client .wake] := by
  obtain ⟨rest, split⟩ := inside
  have taken : before = lateRetry.take before.length := by rw [← split]; simp
  have thaws : lateRetry[before.length]? = some (.client (.thaw thaw)) := by rw [← split]; simp
  have bound : before.length < lateRetry.length := by rw [← split]; simp
  have few : lateRetry.length = 12 := rfl
  rw [taken]
  generalize before.length = n at thaws bound
  rw [few] at bound
  interval_cases n
  all_goals cases thaws
  rfl

/-- A handover in time, and one whose fence fails and is not tried again before the thaw. -/
theorem upgradeRun_intact_prompt :
    (let s := upgradeRun steadyDaemon (upgradeInit (daemonInit () 3 1)) (requestSteps ++ answerSteps)
    s.agreed = true ∧ s.fenced = true ∧ s.froze = [['/']] ∧ Intact s) ∧
    let s := upgradeRun flakyFence (upgradeInit (daemonInit 0 3 0)) lateRetry
    s.agreed = true ∧ s.froze = [['/']] ∧ s.frozen = [] ∧ Intact s := by
  constructor
  · refine ⟨rfl, rfl, rfl, ?_⟩
    refine upgradeRun_intact steadyDaemon () 3 1 (requestSteps ++ answerSteps) ?_ _ (List.prefix_refl _)
    intro before thaw inside
    have member : UpgradeStep.client (.thaw thaw) ∈ requestSteps ++ answerSteps :=
      inside.subset (by simp)
    simp [requestSteps, answerSteps, aliveEvents] at member
  · refine ⟨rfl, rfl, rfl, ?_⟩
    refine upgradeRun_intact flakyFence 0 3 0 lateRetry ?_ _ (List.prefix_refl _)
    intro before thaw inside
    rw [lateRetry_thaw inside]
    rintro (queued | due | ⟨-, -, left, -⟩)
    · cases queued
    · cases due
    · exact absurd left (by decide)

end Kmorph
