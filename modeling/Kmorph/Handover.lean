import Kmorph.DaemonRules
import Kmorph.KmorphdCore
import Kmorph.Netsnap
import Kmorph.Preserve

/-!
The dump of the predecessor's memory in every run of `kmorphd`: memory is added
without one only where a handover fenced the predecessor at once, unless a silent
probe result retries the fence of a handover that failed.
-/

namespace Kmorph

open Histories

def Kmorphd.log (k : Kmorphd) : List Effect := k.ops.ops.log

def DumpTried (before : List Effect) (entry : Effect) : Prop :=
  entry.memoryAdd ≠ [] → ∃ ranges ret, .dumpVmcore ranges ret ∈ before

/-- The fence that succeeded is the one an accepted handover called, with nothing in between. -/
def HandedDirectly (history : List Obs) : Prop :=
  [.handover, .called .fence 0] <:+: history

theorem HandedDirectly.append {history : List Obs} (direct : HandedDirectly history)
    (new : List Obs) : HandedDirectly (history ++ new) :=
  List.IsInfix.trans direct (List.prefix_append history new).isInfix

structure Dumpable (k : Kmorphd) : Prop where
  configured : k.ops.ops.env.dumpPath.isSome = true
  quiet : ∀ e ∈ k.log, e.Quiet

theorem Dumpable.grows {k after : Kmorphd} (dumpable : Dumpable k)
    (grows : Grows k.ops.ops after.ops.ops) : Dumpable after := by
  obtain ⟨new, log, quiet⟩ := grows.log
  refine ⟨by rw [grows.env]; exact dumpable.configured, ?_⟩
  rw [Kmorphd.log, log]
  intro e member
  rcases List.mem_append.mp member with old | fresh
  · exact dumpable.quiet e old
  · exact quiet e fresh

theorem always_dumpTried_of_quiet {log : List Effect} (quiet : ∀ e ∈ log, e.Quiet) :
    Always DumpTried log := by
  intro before entry found adds
  exact absurd (quiet entry (found.subset (by simp))).1 adds

structure DumpDone (o : Ops) : Prop where
  tried : Always DumpTried o.log
  dumped : o.preserved.r ≠ [] → ∃ ranges ret, .dumpVmcore ranges ret ∈ o.log

theorem Dumpable.preserve {k : Kmorphd} (dumpable : Dumpable k) (dumped : Int) :
    DumpDone (opsPreserve dumped k.ops.ops).2 := by
  have tried := always_dumpTried_of_quiet dumpable.quiet
  rw [opsPreserve_eq _ dumpable.configured]
  split
  · rename_i nothing
    exact ⟨tried, fun some => absurd nothing some⟩
  · refine ⟨tried.append_free ?_, fun _ => ⟨_, _, List.mem_append_right _ List.mem_cons_self⟩⟩
    intro entry member before adds
    obtain rfl := List.mem_singleton.mp member
    exact absurd rfl adds

theorem DumpDone.reap {o : Ops} (done : DumpDone o) (a : OverlayAnswer) :
    Always DumpTried (opsReap a o).2.log := by
  simp only [opsReap]
  split
  · exact done.tried
  · rename_i some
    obtain ⟨ranges, ret, dumped⟩ := done.dumped some
    obtain ⟨new, after, -⟩ := applyAdopt_cases a [] o.preserved o
    have always : Always DumpTried (o.log ++ new) :=
      done.tried.append fun before entry _ _ => ⟨ranges, ret, List.mem_append_left _ dumped⟩
    rw [after]
    split
    · exact always
    · exact always

def dumpableStages (inet : Inet) (retries : UInt32) :
    Stages (kmorphdOps inet).watched retries where
  watching ctx := Dumpable ctx.1
  failed _ ctx := Dumpable ctx.1
  fenced ctx := Dumpable ctx.1
  adopted ctx := Dumpable ctx.1
  preserved ctx := DumpDone ctx.1.ops.ops
  takenOver ctx := Always DumpTried ctx.1.log
  watching_onState _ _ _ held := held
  failed_onState _ _ _ _ held := held
  fenced_onState _ _ _ held := held
  takenOver_onState _ _ _ held := held
  fence_fails attempts ctx ready _ := by
    have dumpable : Dumpable ctx.1 := ready.elim And.right And.right
    exact dumpable.grows (opsFence_grows _ _)
  fence_succeeds attempts ctx ready _ := by
    have dumpable : Dumpable ctx.1 := ready.elim And.right And.right
    exact dumpable.grows (opsFence_grows _ _)
  adopt_fails ctx dumpable _ := dumpable.grows (opsAdopt_grows _ dumpable.configured)
  adopt_succeeds ctx dumpable _ := dumpable.grows (opsAdopt_grows _ dumpable.configured)
  preserve_fails ctx dumpable _ := (dumpable.preserve _).tried
  preserve_succeeds ctx dumpable _ := dumpable.preserve _
  reap_returns ctx done := done.reap _

theorem Stages.holds_watching_iff {σ : Type} {ops : TakeoverOps σ} {retries : UInt32}
    {stages : Stages ops retries} {m : Machine σ} (watching : m.tk.state.begun = false) :
    stages.Holds m ↔
      m.tk.fenceRetries = retries ∧ m.tk.fenceAttempts = 0 ∧ stages.watching m.ctx := by
  rcases TakeoverState.begun_eq_false_iff.mp watching with state | state <;>
    simp [Stages.Holds, state]

theorem takeNetwork_eq_some {inet : Inet} {text : List Char} {k next : Kmorphd} :
    (kmorphdOps inet).takeNetwork text k = some next ↔
      ∃ snap, netsnapParse inet text = .ok snap ∧ k.storeNetwork text snap = next := by
  simp only [kmorphdOps]
  split
  · rename_i malformed
    simp [malformed]
  · rename_i parsed
    simp [parsed]

theorem Dumpable.storeNetwork {k : Kmorphd} (dumpable : Dumpable k) (text : List Char)
    (snap : Netsnap) : Dumpable (k.storeNetwork text snap) :=
  ⟨dumpable.configured, dumpable.quiet⟩

def Retriable (tk : Takeover) : Prop :=
  tk.state = .fenceFailed ∧ tk.fenceAttempts ≤ tk.fenceRetries

instance (tk : Takeover) : Decidable (Retriable tk) :=
  inferInstanceAs (Decidable (_ ∧ _))

/-- After an accepted handover either its fence failed and nothing was added since, or it fenced. -/
inductive HandedOver (m : Machine (Kmorphd × List Obs)) : Prop
  | failed : m.tk.state = .fenceFailed → (∀ e ∈ m.ctx.1.log, e.Quiet) → HandedOver m
  | fenced : m.tk.state = .fenced ∨ m.tk.state = .takenOver → HandedDirectly m.ctx.2 → HandedOver m

theorem HandedOver.begun {m : Machine (Kmorphd × List Obs)} (handed : HandedOver m) :
    m.tk.state.begun = true := by
  rcases handed with ⟨state, -⟩ | ⟨state | state, -⟩ <;> rw [state] <;> rfl

variable {inet : Inet}

theorem handed_of_fenced {m : Machine (Kmorphd × List Obs)} (state : m.tk.state = .fenced)
    (direct : HandedDirectly m.ctx.2) :
    HandedOver (continueTakeover (kmorphdOps inet).watched m) := by
  obtain ⟨new, grown, -⟩ := continueTakeover_round (watched_logs (kmorphdOps inet)) state m.tk
    (Or.inl ⟨rfl, state⟩)
  obtain ⟨reached, ret, tk, same⟩ := continueTakeover_tk (kmorphdOps inet).watched m
  refine .fenced ?_ ?_
  · rw [tk]
    exact same.imp_left fun same => same.trans state
  · rw [grown]
    exact direct.append _

theorem HandedOver.probe {m : Machine (Kmorphd × List Obs)} (handed : HandedOver m) {ev : TakeoverEvent}
    (probe : ev ≠ .request) (bears : ev = .probeSilent → ¬ Retriable m.tk) :
    HandedOver (takeoverHandle (kmorphdOps inet).watched m ev) := by
  rcases handed with ⟨state, quiet⟩ | ⟨state | state, direct⟩
  · have unmoved : takeoverHandle (kmorphdOps inet).watched m ev = m := by
      simp only [takeoverHandle, state]
      refine if_neg ?_
      rintro ⟨notAlive, retry⟩
      cases ev with
      | probeAlive => exact notAlive rfl
      | probeSilent => exact bears rfl ⟨state, retry⟩
      | request => exact probe rfl
    rw [unmoved]
    exact .failed state quiet
  · have continued : takeoverHandle (kmorphdOps inet).watched m ev =
        continueTakeover (kmorphdOps inet).watched m := by
      simp only [takeoverHandle, state]
    rw [continued]
    exact handed_of_fenced state direct
  · have unmoved : takeoverHandle (kmorphdOps inet).watched m ev = m := by
      simp only [takeoverHandle, state]
    rw [unmoved]
    exact .fenced (Or.inr state) direct

theorem handed_of_request {tk : Takeover} {k : Kmorphd} (history : List Obs)
    (armed : tk.state = .armed) (quiet : ∀ e ∈ k.log, e.Quiet) :
    HandedOver (takeoverHandle (kmorphdOps inet).watched ⟨tk, k, history ++ [.handover]⟩ .request) := by
  rw [takeoverHandle_request armed]
  by_cases stopped : ((kmorphdOps inet).watched.fence
      (fencingMachine (kmorphdOps inet).watched ⟨tk, k, history ++ [.handover]⟩).ctx).1 = 0
  · rw [beginTakeover_fence_succeeds stopped]
    refine handed_of_fenced rfl ⟨history, [], ?_⟩
    have zero : (k.ops.answers 0).fence = 0 := stopped
    show _ = history ++ [.handover] ++ [.called .fence (k.ops.answers 0).fence]
    simp [zero]
  · rw [beginTakeover_fence_fails stopped]
    refine .failed rfl ?_
    intro e member
    rcases List.mem_append.mp member with old | fence
    · exact quiet e old
    · obtain rfl := List.mem_singleton.mp fence
      simp [Effect.Quiet, Effect.memoryAdd]

def dumpRule (inet : Inet) (retries : UInt32) : DaemonRule (kmorphdOps inet) where
  holds handed m := if handed then HandedOver m else (dumpableStages inet retries).Holds m
  bears handed tk := handed = true → ¬ Retriable tk
  bears_fresh _ handed := by simp at handed
  begun m handed := HandedOver.begun handed
  note handed tk k history o holds := by
    cases handed with
    | true =>
        rcases holds with ⟨state, quiet⟩ | ⟨state, direct⟩
        · exact .failed state quiet
        · exact .fenced state (direct.append _)
    | false => exact holds
  probe handed m ev probe bears holds := by
    cases handed with
    | true => exact HandedOver.probe holds probe fun silent => bears silent rfl
    | false => exact (dumpableStages inet retries).takeoverHandle_holds holds ev
  network handed tk k history text next watching taken holds := by
    cases handed with
    | true =>
        have begun : tk.state.begun = true := HandedOver.begun holds
        simp [watching] at begun
    | false =>
        obtain ⟨snap, -, rfl⟩ := takeNetwork_eq_some.mp taken
        obtain ⟨sameRetries, attempts, dumpable⟩ := (Stages.holds_watching_iff watching).mp holds
        exact (Stages.holds_watching_iff watching).mpr
          ⟨sameRetries, attempts, Dumpable.storeNetwork dumpable text snap⟩
  handover tk k history armed holds := by
    have watching : tk.state.begun = false := TakeoverState.begun_eq_false_iff.mpr (Or.inl armed)
    have dumpable : Dumpable k := ((Stages.holds_watching_iff watching).mp holds).2.2
    exact handed_of_request history armed dumpable.quiet

/-- The outstanding probe of a handover whose fence failed reports silence, and the fence is tried
again. -/
def RetriesHandover (d : Daemon Kmorphd) : Event → Prop
  | .probeReady err _ =>
      0 ≤ d.probeFd ∧ probeClassify err = .silent ∧ d.handedOver = true ∧ Retriable d.tk
  | .tick _ | .connection _ _ _ => False

instance (d : Daemon Kmorphd) : (ev : Event) → Decidable (RetriesHandover d ev)
  | .probeReady _ _ => inferInstanceAs (Decidable (_ ∧ _ ∧ _ ∧ _))
  | .tick _ | .connection _ _ _ => inferInstanceAs (Decidable False)

/-- Memory that is added without an attempt to dump it was handed over. -/
def DumpedUnlessHanded (d : Daemon Kmorphd) : Prop :=
  ∀ before entry, before ++ [entry] <+: d.machine.ctx.1.log → entry.memoryAdd ≠ [] →
    (∀ ranges ret, .dumpVmcore ranges ret ∉ before) → HandedDirectly d.history

theorem dumpRule_dumped {retries : UInt32} {d : Daemon Kmorphd}
    (holds : (dumpRule inet retries).Holds d) : DumpedUnlessHanded d := by
  have tried (always : Always DumpTried d.machine.ctx.1.log) : DumpedUnlessHanded d := by
    intro before entry found adds undumped
    obtain ⟨ranges, ret, dumped⟩ := always before entry found adds
    exact absurd dumped (undumped ranges ret)
  unfold DaemonRule.Holds at holds
  cases handed : d.handedOver with
  | true =>
      rw [handed] at holds
      rcases holds with ⟨-, quiet⟩ | ⟨-, direct⟩
      · exact tried (always_dumpTried_of_quiet quiet)
      · exact fun _ _ _ _ _ => direct
  | false =>
      rw [handed] at holds
      obtain ⟨-, stage⟩ := holds
      refine tried ?_
      split at stage
      · exact always_dumpTried_of_quiet stage.2.quiet
      · exact always_dumpTried_of_quiet stage.2.quiet
      · exact stage.elim
      · exact always_dumpTried_of_quiet stage.quiet
      · exact always_dumpTried_of_quiet stage.quiet
      · exact stage

/-- In every run with a dump configured in which no silence retries the fence of a handover, memory
is added without a dump only where a handover fenced at once. -/
theorem daemonRun_dumpedUnlessHanded (inet : Inet) (found : Setup)
    (configured : found.env.dumpPath.isSome = true) (answers : ℕ → Answers)
    (writes : ℕ → FileWrite) (probeTimeouts fenceRetries : UInt32) (events : List Event)
    (unretried : Always (fun before ev => ¬ RetriesHandover (daemonRun (kmorphdOps inet)
      (daemonInit (daemonSetup inet found answers writes) probeTimeouts fenceRetries) before) ev)
      events) :
    DumpedUnlessHanded (daemonRun (kmorphdOps inet)
      (daemonInit (daemonSetup inet found answers writes) probeTimeouts fenceRetries) events) := by
  refine dumpRule_dumped ((dumpRule inet fenceRetries).daemonRun_holds ?_ ?_)
  · exact ⟨rfl, rfl, configured, by simp [Kmorphd.log, daemonInit, takeoverInit, daemonSetup, opsInit]⟩
  · intro before ev first
    have spared := unretried before ev first
    cases ev with
    | tick tick => trivial
    | connection accepted input now => trivial
    | probeReady err now =>
        intro outstanding silent handed retriable
        exact spared ⟨outstanding, silent, handed, retriable⟩

def handoverSetup : Setup where
  env := sampleOps.env
  self := sampleOps.self
  host := sampleOps.host
  iommus := []
  present _ := false
  claimFile := none
  standby := none
  image := none

/-- A live predecessor hands over while the next probe is out, which then reports silence. -/
def handoverEvents : List Event :=
  [.tick ⟨true, 7, 0, 1, 1⟩, .probeReady ECONNRESET 2, .tick ⟨true, 7, 0, 3, 3⟩,
    .connection true [.data "handover\n".toList] 4, .probeReady ETIMEDOUT 5]

/-- The run of these events in which the first fence returns `fence`. -/
def handoverRun (fence : Int) (events : List Event) : Daemon Kmorphd :=
  daemonRun (kmorphdOps textInet) (daemonInit (daemonSetup textInet handoverSetup
    (fun call => { sampleAnswers 0 call with fence := if call = 0 then fence else 0 })
    fun _ => ⟨0, none⟩) 3 1) events

/-- What a takeover of the sample does once it has fenced, without a dump. -/
def undumpedLog : List Effect :=
  [.fence 0, .setAutoprobe false 0, .setAutoprobe true 0, .poolClaimWrite ⟨0x3000, 0x2000⟩ 0,
    .applyOverlay (.adopt "spare" [1, 2] [⟨0x1000, 0x2000⟩, ⟨0x6000, 0x3000⟩]) 0]

theorem daemonRun_dumpedUnlessHanded_direct :
    (handoverRun 0 handoverEvents).machine.ctx.1.log = undumpedLog ∧
      DumpedUnlessHanded (handoverRun 0 handoverEvents) := by
  refine ⟨by decide +kernel, ?_⟩
  refine daemonRun_dumpedUnlessHanded textInet handoverSetup (by decide) _ _ _ _ _ ?_
  decide +kernel

/-- The fence of the handover fails, the silence of the outstanding probe retries it, and the memory
is added without a dump. -/
theorem silence_after_handover_undumped :
    let d := handoverRun (-ETIMEDOUT) handoverEvents
    d.history = [.started 1, .result 1 .alive, .started 2, .reply "ok fencing\n", .handover,
        .called .fence (-ETIMEDOUT), .result 2 .silent, .called .fence 0, .called .adopt 0,
        .called .preserve 0, .called .reap 0] ∧
      d.machine.ctx.1.log = .fence (-ETIMEDOUT) :: undumpedLog ∧ ¬ DumpedUnlessHanded d := by
  refine ⟨by decide +kernel, by decide +kernel, ?_⟩
  intro dumped
  have log : (handoverRun (-ETIMEDOUT) handoverEvents).machine.ctx.1.log =
      .fence (-ETIMEDOUT) :: undumpedLog := by decide +kernel
  have direct := dumped (.fence (-ETIMEDOUT) :: undumpedLog.dropLast) _
    (by rw [log]; exact List.prefix_refl _) (by simp [Effect.memoryAdd, Overlay.memoryAdd])
    (by simp [undumpedLog])
  exact absurd direct (by unfold HandedDirectly; decide +kernel)

end Kmorph
