import Kmorph.DaemonCore
import Kmorph.Histories
import Kmorph.Takeover

/-!
The probe bookkeeping and the handover of the event loop, over every
interleaving of its events. `Probed` says what the history records of the
probes, `Guarded` ties the takeover machine to that record; every handler keeps
both.
-/

namespace Kmorph

open Histories

variable {σ : Type}

def Obs.call (c : Op × Int) : Obs := .called c.1 c.2

theorem watched_logs (ops : DaemonOps σ) : Logs ops.watched Prod.snd Obs.call :=
  ⟨fun _ => rfl, fun _ => rfl, fun _ => rfl, fun _ => rfl, fun _ _ _ => rfl⟩

def Obs.answer : Obs → Option (ℕ × ProbeResult)
  | .result probe r => some (probe, r)
  | .started _ | .reply _ | .handover | .called _ _ => none

def results (history : List Obs) : List (ℕ × ProbeResult) :=
  history.filterMap Obs.answer

@[simp] theorem results_nil : results [] = [] := rfl

@[simp] theorem results_append (first second : List Obs) :
    results (first ++ second) = results first ++ results second := by
  simp [results]

@[simp] theorem results_result (probe : ℕ) (r : ProbeResult) :
    results [.result probe r] = [(probe, r)] := rfl

@[simp] theorem results_calls (calls : List (Op × Int)) : results (calls.map Obs.call) = [] := by
  induction calls with
  | nil => rfl
  | cons c calls ih => exact ih

def nextSilent (probes : List ℕ) : ℕ × ProbeResult → List ℕ
  | (_, .alive) => []
  | (probe, .silent) => probes ++ [probe]
  | (_, .error) => probes

def silentProbes (history : List Obs) : List ℕ :=
  (results history).foldl nextSilent []

theorem silentProbes_append_quiet {history new : List Obs} (quiet : results new = []) :
    silentProbes (history ++ new) = silentProbes history := by
  simp [silentProbes, quiet]

@[simp] theorem silentProbes_result (history : List Obs) (probe : ℕ) (r : ProbeResult) :
    silentProbes (history ++ [.result probe r]) = nextSilent (silentProbes history) (probe, r) := by
  simp [silentProbes]

theorem silentProbes_sublist (history : List Obs) :
    (silentProbes history).Sublist ((results history).map Prod.fst) := by
  unfold silentProbes
  induction results history using List.reverseRecOn with
  | nil => simp
  | append_singleton answers answer ih =>
      obtain ⟨probe, r⟩ := answer
      rw [List.foldl_append, List.map_append]
      cases r with
      | alive => simp [nextSilent]
      | silent => exact ih.append (List.Sublist.refl _)
      | error => exact ih.trans (List.sublist_append_left _ _)

def lastProbe (history : List Obs) : Option ProbeResult :=
  (results history).getLast?.map Prod.snd

def StartedFirst (before : List Obs) (o : Obs) : Prop :=
  ∀ probe r, o = .result probe r → .started probe ∈ before

structure Probed (d : Daemon σ) : Prop where
  ordered : ((results d.history).map Prod.fst).Pairwise (· < ·)
  answered : ∀ answer ∈ results d.history, answer.1 ≤ d.probes
  pending : 0 ≤ d.probeFd → 1 ≤ d.pending ∧ d.pending ≤ d.probes ∧
    ∀ answer ∈ results d.history, answer.1 < d.pending
  numbered : ∀ probe, 1 ≤ probe → probe ≤ d.probes → .started probe ∈ d.history
  started : Always StartedFirst d.history
  reported : d.probeReported = true → lastProbe d.history = some d.lastResult
  unreported : d.probeReported = false → d.lastResult = .error

/-- The daemon went on without a probe starting or ending. -/
structure Continues (d d' : Daemon σ) (new : List Obs) : Prop where
  history : d'.history = d.history ++ new
  quiet : results new = []
  probes : d'.probes = d.probes
  probeFd : d'.probeFd = d.probeFd
  pending : d'.pending = d.pending
  probeReported : d'.probeReported = d.probeReported
  lastResult : d'.lastResult = d.lastResult

theorem startedFirst_of_answer {o : Obs} (quiet : o.answer = none) (before : List Obs) :
    StartedFirst before o := by
  rintro probe r rfl
  simp [Obs.answer] at quiet

theorem Probed.continues {d d' : Daemon σ} {new : List Obs} (probed : Probed d)
    (continues : Continues d d' new) : Probed d' := by
  obtain ⟨history, quiet, probes, probeFd, pending, probeReported, lastResult⟩ := continues
  have same : results d'.history = results d.history := by rw [history, results_append, quiet, List.append_nil]
  refine ⟨?_, ?_, ?_, ?_, ?_, ?_, ?_⟩
  · rw [same]
    exact probed.ordered
  · rw [same, probes]
    exact probed.answered
  · rw [same, probes, probeFd, pending]
    exact probed.pending
  · intro probe lower upper
    rw [history]
    exact List.mem_append_left _ (probed.numbered probe lower (probes ▸ upper))
  · rw [history]
    refine probed.started.append_free ?_
    intro o member before
    exact startedFirst_of_answer (List.filterMap_eq_nil_iff.mp quiet o member) before
  · rw [probeReported, lastResult, lastProbe, same]
    exact probed.reported
  · rw [probeReported, lastResult]
    exact probed.unreported

@[simp] theorem note_history (o : Obs) (d : Daemon σ) : (d.note o).history = d.history ++ [o] := rfl

theorem note_continues (d : Daemon σ) {o : Obs} (quiet : o.answer = none) :
    Continues d (d.note o) [o] :=
  ⟨rfl, by simp [results, quiet], rfl, rfl, rfl, rfl, rfl⟩

theorem handle_history (ops : DaemonOps σ) (ev : TakeoverEvent) (d : Daemon σ) :
    ∃ new, (d.handle ops ev).history = d.history ++ new.map Obs.call ∧
      Round d.tk (d.handle ops ev).tk new :=
  takeoverHandle_round (watched_logs ops) d.machine ev

theorem handle_continues (ops : DaemonOps σ) (ev : TakeoverEvent) (d : Daemon σ) :
    ∃ new : List (Op × Int), Continues d (d.handle ops ev) (new.map Obs.call) := by
  obtain ⟨new, grown, _⟩ := handle_history ops ev d
  exact ⟨new, grown, results_calls new, rfl, rfl, rfl, rfl, rfl⟩

section Record

variable (probe : ℕ) (err : Int) (now : UInt64) (d : Daemon σ)

theorem recordProbe_history :
    (recordProbe probe err now d).history = d.history ++ [.result probe (probeClassify err)] := by
  simp only [recordProbe]
  split <;> rfl

theorem recordProbe_lastResult : (recordProbe probe err now d).lastResult = probeClassify err := by
  simp only [recordProbe]
  split
  · rfl
  · rename_i same
    simp only [not_or, not_not] at same
    exact same.1.symm

theorem recordProbe_probeReported : (recordProbe probe err now d).probeReported = true := by
  simp only [recordProbe]
  split
  · rfl
  · rename_i same
    simp only [not_or, Bool.not_eq_false] at same
    exact same.2.1

theorem recordProbe_machine :
    (recordProbe probe err now d).machine = (d.note (.result probe (probeClassify err))).machine := by
  simp only [recordProbe]
  split <;> rfl

theorem recordProbe_bookkeeping :
    (recordProbe probe err now d).probes = d.probes ∧
      (recordProbe probe err now d).probeFd = d.probeFd ∧
      (recordProbe probe err now d).handedOver = d.handedOver := by
  simp only [recordProbe]
  split <;> exact ⟨rfl, rfl, rfl⟩

end Record

theorem Probed.record {d : Daemon σ} {probe : ℕ} (probed : Probed d) (closed : d.probeFd < 0)
    (lower : 1 ≤ probe) (upper : probe ≤ d.probes)
    (fresh : ∀ answer ∈ results d.history, answer.1 < probe) (err : Int) (now : UInt64) :
    Probed (recordProbe probe err now d) := by
  obtain ⟨probes, probeFd, _⟩ := recordProbe_bookkeeping probe err now d
  have history := recordProbe_history probe err now d
  refine ⟨?_, ?_, ?_, ?_, ?_, ?_, ?_⟩
  · rw [history, results_append, List.map_append, List.pairwise_append]
    refine ⟨probed.ordered, by simp, ?_⟩
    intro old oldMember new newMember
    obtain ⟨answer, member, rfl⟩ := List.mem_map.mp oldMember
    obtain rfl : new = probe := by simpa using newMember
    exact fresh answer member
  · rw [history, probes]
    intro answer member
    rcases List.mem_append.mp (results_append _ _ ▸ member) with old | new
    · exact probed.answered answer old
    · obtain rfl : answer = (probe, probeClassify err) := by simpa using new
      exact upper
  · rw [probeFd]
    intro outstanding
    omega
  · intro other first last
    rw [history]
    exact List.mem_append_left _ (probed.numbered other first (probes ▸ last))
  · rw [history, always_append_singleton]
    refine ⟨probed.started, ?_⟩
    intro other r same
    obtain ⟨rfl, _⟩ : probe = other ∧ probeClassify err = r := by simpa using same
    exact probed.numbered probe lower upper
  · intro _
    rw [history, lastProbe, recordProbe_lastResult]
    simp
  · rw [recordProbe_probeReported]
    simp

theorem Probed.deliver {d : Daemon σ} {probe : ℕ} (probed : Probed d) (closed : d.probeFd < 0)
    (lower : 1 ≤ probe) (upper : probe ≤ d.probes)
    (fresh : ∀ answer ∈ results d.history, answer.1 < probe) (ops : DaemonOps σ) (err : Int)
    (now : UInt64) : Probed (deliverProbe ops probe err now d) := by
  have recorded := probed.record closed lower upper fresh err now
  have handled (ev : TakeoverEvent) : Probed ((recordProbe probe err now d).handle ops ev) := by
    obtain ⟨new, continues⟩ := handle_continues ops ev (recordProbe probe err now d)
    exact recorded.continues continues
  unfold deliverProbe
  cases probeClassify err with
  | alive => exact handled _
  | silent => exact handled _
  | error => exact recorded

/-- The first fence follows a handover or `probeTimeouts` silent probes in a row. -/
def FenceCaused (probeTimeouts : UInt32) (before : List Obs) (o : Obs) : Prop :=
  ∀ ret, o = .called .fence ret → (∀ ret, .called .fence ret ∉ before) →
    before.getLast? = some .handover ∨ probeTimeouts.toNat ≤ (silentProbes before).length

structure Guarded (probeTimeouts : UInt32) (d : Daemon σ) : Prop where
  watching : Watching probeTimeouts (silentProbes d.history).length d.tk
  fenced : d.tk.state.begun = true ↔ ∃ ret, .called .fence ret ∈ d.history
  caused : Always (FenceCaused probeTimeouts) d.history

theorem call_mem_iff {op : Op} {ret : Int} {calls : List (Op × Int)} :
    Obs.called op ret ∈ calls.map Obs.call ↔ (op, ret) ∈ calls := by
  simp [Obs.call]

theorem fenceCaused_of_other {probeTimeouts : UInt32} {o : Obs} (other : ∀ ret, o ≠ .called .fence ret)
    (before : List Obs) : FenceCaused probeTimeouts before o :=
  fun ret same => absurd same (other ret)

theorem Guarded.continues {probeTimeouts : UInt32} {d d' : Daemon σ} {new : List Obs}
    (guarded : Guarded probeTimeouts d) (continues : Continues d d' new) (sameTk : d'.tk = d.tk)
    (uncalled : ∀ o ∈ new, ∀ ret, o ≠ .called .fence ret) : Guarded probeTimeouts d' := by
  refine ⟨?_, ?_, ?_⟩
  · rw [continues.history, silentProbes_append_quiet continues.quiet, sameTk]
    exact guarded.watching
  · rw [sameTk, guarded.fenced, continues.history]
    constructor
    · rintro ⟨ret, member⟩
      exact ⟨ret, List.mem_append_left _ member⟩
    · rintro ⟨ret, member⟩
      rcases List.mem_append.mp member with old | added
      · exact ⟨ret, old⟩
      · exact absurd rfl (uncalled _ added ret)
  · rw [continues.history]
    exact guarded.caused.append_free fun o member => fenceCaused_of_other (uncalled o member)

section Handling

variable {ops : DaemonOps σ} {probeTimeouts : UInt32} {d : Daemon σ} {ev : TakeoverEvent} {streak : ℕ}

theorem cause_of_calls (watching : Watching probeTimeouts streak d.tk)
    (inState : d.tk.state.begun = false) {new : List (Op × Int)}
    (grown : (d.handle ops ev).history = d.history ++ new.map Obs.call) (some : new ≠ []) :
    ev = .request ∨ ev = .probeSilent ∧ probeTimeouts.toNat ≤ streak + 1 := by
  by_contra other
  rw [not_or] at other
  have quiet : (d.handle ops ev).history = d.history :=
    takeoverHandle_quiet (watched_logs ops) watching
      (TakeoverState.begun_eq_false_iff.mp inState) (fun request => other.1 request.1) other.2
  rw [quiet] at grown
  exact some (by simpa using grown)

theorem handle_caused (watching : Watching probeTimeouts streak d.tk)
    (counted : (silentProbes d.history).length = nextStreak streak ev)
    (fenced : d.tk.state.begun = true ↔ ∃ ret, .called .fence ret ∈ d.history)
    (requested : ev = .request → d.history.getLast? = some .handover)
    (caused : Always (FenceCaused probeTimeouts) d.history) :
    Always (FenceCaused probeTimeouts) (d.handle ops ev).history := by
  obtain ⟨new, grown, round⟩ := handle_history ops ev d
  rw [grown]
  refine caused.append ?_
  rintro before _ found ret rfl none
  have inState : d.tk.state.begun = false := by
    by_contra begun
    obtain ⟨ret, member⟩ := fenced.mp (by simpa using begun)
    exact none ret (List.mem_append_left _ member)
  rcases round.starts inState with rfl | ⟨first, rest, rfl⟩
  · simp at found
  · have atStart : before = [] := by
      cases before with
      | nil => rfl
      | cons o before =>
          have same : o = .called .fence first := by
            simpa [Obs.call] using (List.cons_prefix_cons.mp found).1
          exact absurd (by simp [same]) (none first)
    subst atStart
    rw [List.append_nil]
    rcases cause_of_calls watching inState grown (by simp) with rfl | ⟨rfl, reached⟩
    · exact Or.inl (requested rfl)
    · refine Or.inr ?_
      rw [counted]
      exact reached

theorem handle_guarded (watching : Watching probeTimeouts streak d.tk)
    (counted : (silentProbes d.history).length = nextStreak streak ev)
    (fenced : d.tk.state.begun = true ↔ ∃ ret, .called .fence ret ∈ d.history)
    (requested : ev = .request → d.history.getLast? = some .handover)
    (caused : Always (FenceCaused probeTimeouts) d.history) :
    Guarded probeTimeouts (d.handle ops ev) := by
  obtain ⟨new, grown, round⟩ := handle_history ops ev d
  refine ⟨?_, ?_, handle_caused watching counted fenced requested caused⟩
  · rw [grown, silentProbes_append_quiet (results_calls new), counted]
    exact takeoverHandle_watching ev watching
  · rw [round.begun, fenced, grown]
    simp only [List.mem_append, call_mem_iff, exists_or]

end Handling

theorem Guarded.deliver {probeTimeouts : UInt32} {d : Daemon σ} (guarded : Guarded probeTimeouts d)
    (ops : DaemonOps σ) (probe : ℕ) (err : Int) (now : UInt64) :
    Guarded probeTimeouts (deliverProbe ops probe err now d) := by
  have history := recordProbe_history probe err now d
  have sameTk : (recordProbe probe err now d).tk = d.tk := by
    rw [Daemon.tk, recordProbe_machine]
    rfl
  have fenced : (recordProbe probe err now d).tk.state.begun = true ↔
      ∃ ret, .called .fence ret ∈ (recordProbe probe err now d).history := by
    rw [sameTk, guarded.fenced, history]
    simp
  have caused : Always (FenceCaused probeTimeouts) (recordProbe probe err now d).history := by
    rw [history, always_append_singleton]
    exact ⟨guarded.caused, fenceCaused_of_other (by simp) _⟩
  have watching := guarded.watching
  rw [← sameTk] at watching
  unfold deliverProbe
  cases kind : probeClassify err with
  | alive =>
      refine handle_guarded watching ?_ fenced (by simp) caused
      rw [history, kind, silentProbes_result]
      rfl
  | silent =>
      refine handle_guarded watching ?_ fenced (by simp) caused
      rw [history, kind, silentProbes_result]
      simp [nextSilent, nextStreak]
  | error =>
      refine ⟨?_, fenced, caused⟩
      rw [history, kind, silentProbes_result]
      exact watching

structure Sound (probeTimeouts : UInt32) (d : Daemon σ) : Prop where
  probed : Probed d
  guarded : Guarded probeTimeouts d

theorem deliverProbe_probeFd (ops : DaemonOps σ) (probe : ℕ) (err : Int) (now : UInt64)
    (d : Daemon σ) : (deliverProbe ops probe err now d).probeFd = d.probeFd := by
  have recorded := (recordProbe_bookkeeping probe err now d).2.1
  unfold deliverProbe
  cases probeClassify err <;> exact recorded

section Steps

variable {ops : DaemonOps σ} {probeTimeouts : UInt32} {d : Daemon σ}

theorem Sound.continues {d' : Daemon σ} {new : List Obs} (sound : Sound probeTimeouts d)
    (continues : Continues d d' new) (sameTk : d'.tk = d.tk)
    (uncalled : ∀ o ∈ new, ∀ ret, o ≠ .called .fence ret) : Sound probeTimeouts d' :=
  ⟨sound.probed.continues continues, sound.guarded.continues continues sameTk uncalled⟩

theorem Sound.closed (sound : Sound probeTimeouts d) : Sound probeTimeouts { d with probeFd := -1 } := by
  obtain ⟨⟨ordered, answered, pending, numbered, started, reported, unreported⟩, guarded⟩ := sound
  refine ⟨⟨ordered, answered, ?_, numbered, started, reported, unreported⟩,
    ⟨guarded.watching, guarded.fenced, guarded.caused⟩⟩
  intro outstanding
  simp at outstanding

theorem Sound.deliver {probe : ℕ} (sound : Sound probeTimeouts d)
    (closed : d.probeFd < 0) (lower : 1 ≤ probe)
    (upper : probe ≤ d.probes) (fresh : ∀ answer ∈ results d.history, answer.1 < probe)
    (ops : DaemonOps σ) (err : Int) (now : UInt64) :
    Sound probeTimeouts (deliverProbe ops probe err now d) :=
  ⟨sound.probed.deliver closed lower upper fresh ops err now,
    sound.guarded.deliver ops probe err now⟩

theorem timeoutPending_sound (ops : DaemonOps σ) (sound : Sound probeTimeouts d)
    (now : UInt64) : Sound probeTimeouts (timeoutPending ops now d) ∧
      (timeoutPending ops now d).probeFd < 0 := by
  unfold timeoutPending
  split
  · rename_i outstanding
    obtain ⟨lower, upper, fresh⟩ := sound.probed.pending outstanding
    refine ⟨sound.closed.deliver (by simp) lower upper fresh ops _ _, ?_⟩
    rw [deliverProbe_probeFd]
    simp
  · rename_i none
    exact ⟨sound, by omega⟩

def numberProbe (d : Daemon σ) : Daemon σ :=
  { d.note (.started (d.probes + 1)) with probes := d.probes + 1 }

theorem numberProbe_sound (sound : Sound probeTimeouts d) (closed : d.probeFd < 0) :
    Sound probeTimeouts (numberProbe d) := by
  have noted := sound.continues (note_continues d (show (Obs.started (d.probes + 1)).answer = none
    from rfl)) rfl (by simp)
  refine ⟨⟨noted.probed.ordered, ?_, ?_, ?_, noted.probed.started, noted.probed.reported,
    noted.probed.unreported⟩, ⟨noted.guarded.watching, noted.guarded.fenced, noted.guarded.caused⟩⟩
  · intro answer member
    exact Nat.le_succ_of_le (noted.probed.answered answer member)
  · intro outstanding
    have same : (numberProbe d).probeFd = d.probeFd := rfl
    omega
  · intro probe lower upper
    have upper' : probe ≤ d.probes + 1 := upper
    show Obs.started probe ∈ d.history ++ [Obs.started (d.probes + 1)]
    by_cases last : probe = d.probes + 1
    · simp [last]
    · exact List.mem_append_left _ (sound.probed.numbered probe lower (by omega))

theorem numberProbe_fresh (sound : Sound probeTimeouts d) :
    ∀ answer ∈ results (numberProbe d).history, answer.1 < (numberProbe d).probes := by
  intro answer member
  have old : answer ∈ results d.history := by
    have same : results (numberProbe d).history = results d.history := by
      show results (d.history ++ [_]) = _
      simp [results, Obs.answer]
    rwa [same] at member
  exact Nat.lt_succ_of_le (sound.probed.answered answer old)

theorem startProbe_sound (sound : Sound probeTimeouts d)
    (closed : d.probeFd < 0) (tick : Tick) : Sound probeTimeouts (startProbe ops tick d) := by
  have numbered := numberProbe_sound sound closed
  have fresh := numberProbe_fresh sound
  have delivered (err : Int) :
      Sound probeTimeouts (deliverProbe ops (d.probes + 1) err tick.later (numberProbe d)) :=
    numbered.deliver closed (Nat.le_add_left 1 _) le_rfl fresh ops err tick.later
  simp only [startProbe]
  split
  · exact delivered _
  · split
    · exact delivered _
    · obtain ⟨⟨ordered, answered, _, started, order, reported, unreported⟩, guarded⟩ := numbered
      refine ⟨⟨ordered, answered, ?_, started, order, reported, unreported⟩,
        ⟨guarded.watching, guarded.fenced, guarded.caused⟩⟩
      intro _
      exact ⟨Nat.le_add_left 1 _, le_rfl, fresh⟩

theorem onTick_sound (sound : Sound probeTimeouts d)
    (tick : Tick) : Sound probeTimeouts (onTick ops tick d) := by
  unfold onTick
  split
  · exact sound
  · split
    · exact sound
    · obtain ⟨timedOut, closed⟩ := timeoutPending_sound ops sound tick.now
      exact startProbe_sound timedOut closed tick

theorem onProbeReady_sound (sound : Sound probeTimeouts d)
    (outstanding : 0 ≤ d.probeFd) (err : Int) (now : UInt64) :
    Sound probeTimeouts (onProbeReady ops err now d) := by
  obtain ⟨lower, upper, fresh⟩ := sound.probed.pending outstanding
  exact sound.closed.deliver (by simp) lower upper fresh ops err now

theorem send_sound (sound : Sound probeTimeouts d) (reply : Except Int String) :
    Sound probeTimeouts (d.send reply) := by
  cases reply with
  | ok text => exact sound.continues (note_continues d rfl) rfl (by simp)
  | error _ => exact sound

theorem answerNetwork_continues (ops : DaemonOps σ) (text : List Char) (len : ℕ) (d : Daemon σ) :
    Continues d (answerNetwork ops text len d).1 [] ∧ (answerNetwork ops text len d).1.tk = d.tk := by
  have refl : Continues d d [] := ⟨by simp, rfl, rfl, rfl, rfl, rfl, rfl⟩
  unfold answerNetwork
  split
  · exact ⟨refl, rfl⟩
  · split
    · exact ⟨refl, rfl⟩
    · exact ⟨⟨by simp [Daemon.history], rfl, rfl, rfl, rfl, rfl, rfl⟩, rfl⟩

/-- An answer sends at most a reply, after at most a change of the network identity. -/
theorem answerRequest_answers (ops : DaemonOps σ) (input : List Recv) (now : UInt64) (d : Daemon σ) :
    ∃ d₁, Continues d d₁ [] ∧ d₁.tk = d.tk ∧
      ((answerRequest ops input now d).2 = d₁ ∨
        ∃ reply, (answerRequest ops input now d).2 = d₁.send reply) := by
  have unmoved : Continues d d [] := ⟨by simp, rfl, rfl, rfl, rfl, rfl, rfl⟩
  unfold answerRequest
  cases readRequest REQUEST_MAX none [] input with
  | error errno =>
      refine ⟨d, unmoved, rfl, ?_⟩
      simp only
      split
      · exact Or.inl rfl
      · exact Or.inr ⟨.ok "err unsupported request\n", rfl⟩
  | ok request =>
      obtain ⟨kind, payload⟩ := request
      cases kind with
      | status =>
          refine ⟨d, unmoved, rfl, Or.inr ?_⟩
          simp only
          exact ⟨_, rfl⟩
      | handover =>
          refine ⟨d, unmoved, rfl, Or.inr ?_⟩
          simp only
          exact ⟨_, rfl⟩
      | network =>
          obtain ⟨continues, sameTk⟩ := answerNetwork_continues ops (cString payload) REPLY_MAX d
          refine ⟨_, continues, sameTk, Or.inr ?_⟩
          simp only
          exact ⟨_, rfl⟩

theorem answerRequest_sound (ops : DaemonOps σ) (sound : Sound probeTimeouts d) (input : List Recv)
    (now : UInt64) : Sound probeTimeouts (answerRequest ops input now d).2 := by
  obtain ⟨d₁, continues, sameTk, answer⟩ := answerRequest_answers ops input now d
  have kept : Sound probeTimeouts d₁ := sound.continues continues sameTk (by simp)
  rcases answer with same | ⟨reply, same⟩
  · exact same ▸ kept
  · exact same ▸ send_sound kept reply

def granted (ops : DaemonOps σ) (d : Daemon σ) : Daemon σ :=
  { d with
    handedOver := true
    machine := { d.machine with ctx := (ops.dropDump d.machine.ctx.1, d.history ++ [.handover]) } }

theorem takeHandover_eq (ops : DaemonOps σ) (d : Daemon σ) :
    takeHandover ops d = (granted ops d).handle ops .request := rfl

theorem takeHandover_sound (sound : Sound probeTimeouts d) :
    Sound probeTimeouts (takeHandover ops d) := by
  have continues : Continues d (granted ops d) [.handover] :=
    ⟨rfl, rfl, rfl, rfl, rfl, rfl, rfl⟩
  have noted : Sound probeTimeouts (granted ops d) := sound.continues continues rfl (by simp)
  rw [takeHandover_eq]
  obtain ⟨new, handled⟩ := handle_continues ops .request (granted ops d)
  refine ⟨noted.probed.continues handled, ?_⟩
  refine handle_guarded noted.guarded.watching rfl noted.guarded.fenced ?_
    noted.guarded.caused
  intro _
  simp [granted, Daemon.history]

theorem daemonStep_sound (sound : Sound probeTimeouts d)
    (ev : Event) : Sound probeTimeouts (daemonStep ops d ev) := by
  cases ev with
  | tick tick => exact onTick_sound sound tick
  | probeReady err now =>
      simp only [daemonStep]
      split
      · rename_i outstanding
        exact onProbeReady_sound sound outstanding err now
      · exact sound
  | connection accepted input now =>
      simp only [daemonStep]
      split
      · have answered := answerRequest_sound ops sound input now
        simp only [onConnection]
        split
        · exact takeHandover_sound answered
        · exact answered
      · exact sound

end Steps

theorem daemonInit_sound (ctx : σ) (probeTimeouts fenceRetries : UInt32) :
    Sound probeTimeouts (daemonInit ctx probeTimeouts fenceRetries) := by
  refine ⟨⟨by simp [daemonInit, Daemon.history, takeoverInit],
    by simp [daemonInit, Daemon.history, takeoverInit], by simp [daemonInit], ?_,
    by simp [daemonInit, Daemon.history, takeoverInit], by simp [daemonInit], by simp [daemonInit]⟩,
    ⟨?_, ?_, by simp [daemonInit, Daemon.history, takeoverInit]⟩⟩
  · intro probe lower upper
    have none : probe ≤ 0 := upper
    omega
  · exact ⟨rfl, fun _ => ⟨rfl, rfl⟩, by simp [daemonInit, Daemon.tk, takeoverInit]⟩
  · simp [daemonInit, Daemon.tk, Daemon.history, takeoverInit, TakeoverState.begun]

theorem daemonRun_sound (ops : DaemonOps σ) (ctx : σ) (probeTimeouts fenceRetries : UInt32)
    (events : List Event) :
    Sound probeTimeouts (daemonRun ops (daemonInit ctx probeTimeouts fenceRetries) events) := by
  refine List.foldlRecOn events (daemonStep ops) (daemonInit_sound ctx probeTimeouts fenceRetries) ?_
  intro d sound ev _
  exact daemonStep_sound sound ev

def Adds (kind : Obs → Prop) (d d' : Daemon σ) : Prop :=
  ∃ new, d'.history = d.history ++ new ∧ ∀ o ∈ new, kind o

theorem Adds.refl {kind : Obs → Prop} (d : Daemon σ) : Adds kind d d :=
  ⟨[], by simp, by simp⟩

theorem Adds.trans {kind : Obs → Prop} {d d' d'' : Daemon σ} (first : Adds kind d d')
    (second : Adds kind d' d'') : Adds kind d d'' := by
  obtain ⟨new, grown, all⟩ := first
  obtain ⟨newer, grownAgain, allAgain⟩ := second
  refine ⟨new ++ newer, by simp [grownAgain, grown], ?_⟩
  intro o member
  rcases List.mem_append.mp member with old | added
  · exact all o old
  · exact allAgain o added

def Obs.Unsaid (o : Obs) : Prop := ∀ text, o ≠ .reply text

theorem handle_unsaid (ops : DaemonOps σ) (ev : TakeoverEvent) (d : Daemon σ) :
    Adds Obs.Unsaid d (d.handle ops ev) := by
  obtain ⟨new, grown, _⟩ := handle_history ops ev d
  refine ⟨_, grown, ?_⟩
  rintro o member text rfl
  simp [Obs.call] at member

theorem deliverProbe_unsaid (ops : DaemonOps σ) (probe : ℕ) (err : Int) (now : UInt64)
    (d : Daemon σ) : Adds Obs.Unsaid d (deliverProbe ops probe err now d) := by
  have recorded : Adds Obs.Unsaid d (recordProbe probe err now d) :=
    ⟨_, recordProbe_history probe err now d, by simp [Obs.Unsaid]⟩
  unfold deliverProbe
  cases probeClassify err with
  | alive => exact recorded.trans (handle_unsaid ops _ _)
  | silent => exact recorded.trans (handle_unsaid ops _ _)
  | error => exact recorded

theorem onTick_unsaid (ops : DaemonOps σ) (tick : Tick) (d : Daemon σ) :
    Adds Obs.Unsaid d (onTick ops tick d) := by
  have timedOut : Adds Obs.Unsaid d (timeoutPending ops tick.now d) := by
    unfold timeoutPending
    split
    · exact deliverProbe_unsaid ops _ _ _ { d with probeFd := -1 }
    · exact Adds.refl d
  have numbered (d : Daemon σ) : Adds Obs.Unsaid d (numberProbe d) :=
    ⟨_, rfl, by simp [Obs.Unsaid]⟩
  have started (d : Daemon σ) : Adds Obs.Unsaid d (startProbe ops tick d) := by
    simp only [startProbe]
    split
    · exact (numbered d).trans (deliverProbe_unsaid ops _ _ _ _)
    · split
      · exact (numbered d).trans (deliverProbe_unsaid ops _ _ _ _)
      · exact numbered d
  unfold onTick
  split
  · exact Adds.refl d
  · split
    · exact Adds.refl d
    · exact timedOut.trans (started _)

theorem answerHandover_accepts {d : Daemon σ}
    (accepted : d.tk.state = .armed ∧ d.lastResult = .alive) :
    answerHandover d REPLY_MAX = (true, .ok "ok fencing\n") := by
  simp only [answerHandover, accepted]
  rfl

def refusal (state : TakeoverState) (r : ProbeResult) : String :=
  "state=" ++ takeoverStateName state ++ " predecessor=" ++ probeResultName r

theorem snprintf_of_length_lt {size : ℕ} {text : String} (fits : text.length < size) :
    snprintf size text = text := by
  rw [snprintf, List.take_of_length_le, String.ofList_toList]
  rw [String.length_toList]
  omega

theorem formatted_of_length_lt {len : ℕ} {text : String} (fits : text.length < len) :
    formatted text len = .ok text :=
  if_neg (by omega)

theorem refusal_length (state : TakeoverState) (r : ProbeResult) : (refusal state r).length ≤ 37 := by
  have stateName : (takeoverStateName state).length ≤ 12 := by cases state <;> decide
  have resultName : (probeResultName r).length ≤ 6 := by cases r <;> decide
  have words : "state=".length = 6 ∧ " predecessor=".length = 13 := by decide
  simp only [refusal, String.length_append, words.1, words.2]
  omega

theorem answerHandover_refuses {d : Daemon σ}
    (refused : ¬ (d.tk.state = .armed ∧ d.lastResult = .alive)) :
    answerHandover d REPLY_MAX =
      (false, .ok ("refused " ++ refusal d.tk.state d.lastResult ++ "\n")) := by
  have short := refusal_length d.tk.state d.lastResult
  have kept : snprintf 64 (refusal d.tk.state d.lastResult) = refusal d.tk.state d.lastResult :=
    snprintf_of_length_lt (by omega)
  have fits : ("refused " ++ refusal d.tk.state d.lastResult ++ "\n").length < REPLY_MAX := by
    have words : "refused ".length = 8 ∧ "\n".length = 1 := by decide
    rw [String.length_append, String.length_append, words.1, words.2, REPLY_MAX]
    omega
  unfold refusal at kept
  simp only [answerHandover, refused, decide_false, if_false, kept]
  exact congrArg (Prod.mk false) (formatted_of_length_lt fits)

theorem refused_ne_ok (reason : String) : "refused " ++ reason ++ "\n" ≠ "ok fencing\n" := by
  intro same
  have first := congrArg (fun text : String => text.toList.head?) same
  simp [String.toList_append] at first

theorem stateName_toList (state : TakeoverState) :
    ∃ c rest, (snprintf 16 (takeoverStateName state)).toList = c :: rest ∧ c ≠ 'f' := by
  cases state <;> exact ⟨_, _, rfl, by decide⟩

theorem eq_of_formatted {text sent : String} {len : ℕ} (ok : formatted text len = .ok sent) :
    text = sent := by
  unfold formatted at ok
  split at ok
  · simp at ok
  · exact Except.ok.inj ok

theorem status_ne_ok {r : StatusReply} {len : ℕ} {c : Char} {rest : List Char}
    (name : r.state.toList = c :: rest) (upper : c ≠ 'f') :
    requestFormatStatus r len ≠ .ok "ok fencing\n" := by
  intro ok
  have fourth := congrArg (fun text : String => (text.toList.drop 3).head?) (eq_of_formatted ok)
  simp only [String.toList_append, name] at fourth
  exact upper (by simpa using fourth)

theorem answerNetwork_ne_ok (ops : DaemonOps σ) (text : List Char) (len : ℕ) (d : Daemon σ) :
    (answerNetwork ops text len d).2 ≠ .ok "ok fencing\n" := by
  have refused (reason : String) :
      requestFormatNetworkReply (some reason) len ≠ .ok "ok fencing\n" :=
    fun ok => refused_ne_ok reason (eq_of_formatted ok)
  have accepted : requestFormatNetworkReply none len ≠ .ok "ok fencing\n" :=
    fun ok => absurd (eq_of_formatted ok) (by decide)
  unfold answerNetwork
  split
  · exact refused _
  · split
    · exact refused _
    · exact accepted

theorem handle_request_armed (ops : DaemonOps σ) {d : Daemon σ} (armed : d.tk.state = .armed) :
    ∃ ret rest, (d.handle ops .request).history = d.history ++ .called .fence ret :: rest := by
  have begins : takeoverHandle ops.watched d.machine .request = beginTakeover ops.watched d.machine :=
    takeoverHandle_request armed
  have unfenced : d.machine.tk.Unfenced := Or.inl (TakeoverState.begun_eq_false_iff.mpr (Or.inl armed))
  obtain ⟨ret, rest, grown, _⟩ := beginTakeover_round (watched_logs ops) d.machine unfenced rfl
  refine ⟨ret, rest.map Obs.call, ?_⟩
  rw [Daemon.history, Daemon.handle, begins]
  exact grown

theorem takeHandover_fences (ops : DaemonOps σ) {d : Daemon σ} (armed : d.tk.state = .armed) :
    ∃ ret rest, (takeHandover ops d).history =
      d.history ++ .handover :: .called .fence ret :: rest := by
  obtain ⟨ret, rest, grown⟩ := handle_request_armed ops
    (show (granted ops d).tk.state = .armed from armed)
  refine ⟨ret, rest, ?_⟩
  rw [takeHandover_eq, grown]
  show d.history ++ [Obs.handover] ++ _ = _
  simp

theorem onConnection_accepts (ops : DaemonOps σ) {input : List Recv} {payload : List Char}
    {d : Daemon σ} (now : UInt64)
    (request : readRequest REQUEST_MAX none [] input = .ok (.handover, payload))
    (accepted : d.tk.state = .armed ∧ d.lastResult = .alive) :
    ∃ ret rest, (onConnection ops input now d).history =
      d.history ++ .reply "ok fencing\n" :: .handover :: .called .fence ret :: rest := by
  have answered : answerRequest ops input now d = (true, d.note (.reply "ok fencing\n")) := by
    simp only [answerRequest, request, answerHandover_accepts accepted, Daemon.send]
  obtain ⟨ret, rest, grown⟩ := takeHandover_fences ops
    (show (d.note (.reply "ok fencing\n")).tk.state = .armed from accepted.1)
  refine ⟨ret, rest, ?_⟩
  simp [onConnection, answered, grown]

theorem daemonStep_accepts (ops : DaemonOps σ) {input : List Recv} {payload : List Char}
    {d : Daemon σ} (now : UInt64)
    (request : readRequest REQUEST_MAX none [] input = .ok (.handover, payload))
    (accepted : d.tk.state = .armed ∧ d.lastResult = .alive) :
    .reply "ok fencing\n" ∈
      (daemonStep ops d (.connection true input now)).history.drop d.history.length := by
  obtain ⟨ret, rest, grown⟩ := onConnection_accepts ops now request accepted
  show _ ∈ (onConnection ops input now d).history.drop _
  rw [grown, List.drop_left]
  exact List.mem_cons_self

theorem onConnection_refuses (ops : DaemonOps σ) {input : List Recv} {payload : List Char}
    {d : Daemon σ} (now : UInt64)
    (request : readRequest REQUEST_MAX none [] input = .ok (.handover, payload))
    (refused : ¬ (d.tk.state = .armed ∧ d.lastResult = .alive)) :
    onConnection ops input now d =
      d.note (.reply ("refused " ++ refusal d.tk.state d.lastResult ++ "\n")) := by
  simp [onConnection, answerRequest, request, answerHandover_refuses refused, Daemon.send]

theorem send_unfencing {d : Daemon σ} {reply : Except Int String}
    (other : reply ≠ .ok "ok fencing\n") : Adds (· ≠ .reply "ok fencing\n") d (d.send reply) := by
  cases reply with
  | error _ => exact Adds.refl d
  | ok text =>
      refine ⟨[.reply text], rfl, ?_⟩
      intro o member same
      exact other (by simpa [same] using (List.mem_singleton.mp member).symm)

theorem answerRequest_other (ops : DaemonOps σ) {input : List Recv} (now : UInt64) (d : Daemon σ)
    (other : ∀ payload, readRequest REQUEST_MAX none [] input ≠ .ok (.handover, payload)) :
    (answerRequest ops input now d).1 = false ∧
      Adds (· ≠ .reply "ok fencing\n") d (answerRequest ops input now d).2 := by
  unfold answerRequest
  cases request : readRequest REQUEST_MAX none [] input with
  | error errno =>
      simp only
      split
      · exact ⟨rfl, Adds.refl d⟩
      · refine ⟨rfl, send_unfencing ?_⟩
        intro same
        exact absurd (Except.ok.inj same) (by decide)
  | ok read =>
      obtain ⟨kind, payload⟩ := read
      cases kind with
      | handover => exact absurd request (other payload)
      | status =>
          obtain ⟨c, rest, name, upper⟩ := stateName_toList d.tk.state
          have unfencing : requestFormatStatus (fillStatus d now) REPLY_MAX ≠ .ok "ok fencing\n" :=
            status_ne_ok name upper
          refine ⟨rfl, ?_⟩
          simp only
          exact send_unfencing unfencing
      | network =>
          obtain ⟨continues, _⟩ := answerNetwork_continues ops (cString payload) REPLY_MAX d
          have kept : Adds (· ≠ .reply "ok fencing\n") d
              (answerNetwork ops (cString payload) REPLY_MAX d).1 := ⟨[], continues.history, by simp⟩
          exact ⟨rfl, kept.trans (send_unfencing (answerNetwork_ne_ok ops _ _ d))⟩

theorem onConnection_other (ops : DaemonOps σ) {input : List Recv} {d : Daemon σ} (now : UInt64)
    (other : ∀ payload, readRequest REQUEST_MAX none [] input ≠ .ok (.handover, payload)) :
    Adds (· ≠ .reply "ok fencing\n") d (onConnection ops input now d) := by
  obtain ⟨refused, adds⟩ := answerRequest_other ops now d other
  simpa [onConnection, refused] using adds

theorem Adds.drop {kind : Obs → Prop} {d d' : Daemon σ} (adds : Adds kind d d') :
    ∀ o ∈ d'.history.drop d.history.length, kind o := by
  obtain ⟨new, grown, all⟩ := adds
  simpa [grown] using all

theorem daemonStep_ok_fencing (ops : DaemonOps σ) {d : Daemon σ} {ev : Event}
    (said : .reply "ok fencing\n" ∈ (daemonStep ops d ev).history.drop d.history.length) :
    ∃ input now payload, ev = .connection true input now ∧
      readRequest REQUEST_MAX none [] input = .ok (.handover, payload) ∧
      d.tk.state = .armed ∧ d.lastResult = .alive := by
  have unsaid {d' : Daemon σ} (same : daemonStep ops d ev = d') :
      ¬ Adds (· ≠ .reply "ok fencing\n") d d' := by
    intro adds
    exact adds.drop _ (same ▸ said) rfl
  have weaken {d' : Daemon σ} (adds : Adds Obs.Unsaid d d') : Adds (· ≠ .reply "ok fencing\n") d d' := by
    obtain ⟨new, grown, all⟩ := adds
    exact ⟨new, grown, fun o member => all o member _⟩
  cases ev with
  | tick tick => exact absurd (weaken (onTick_unsaid ops tick d)) (unsaid rfl)
  | probeReady err now =>
      by_cases outstanding : d.probeFd ≥ 0
      · exact absurd (weaken (deliverProbe_unsaid ops _ err now { d with probeFd := -1 }))
          (unsaid (if_pos outstanding))
      · exact absurd (Adds.refl d) (unsaid (if_neg outstanding))
  | connection accepted input now =>
      cases accepted with
      | false => exact absurd (Adds.refl d) (unsaid rfl)
      | true =>
          by_cases handover : ∃ payload,
              readRequest REQUEST_MAX none [] input = .ok (.handover, payload)
          · obtain ⟨payload, request⟩ := handover
            refine ⟨input, now, payload, rfl, request, ?_⟩
            by_contra refused
            refine unsaid (onConnection_refuses ops now request refused) ⟨_, rfl, ?_⟩
            intro o member same
            rw [List.mem_singleton.mp member] at same
            exact refused_ne_ok _ (Obs.reply.inj same)
          · rw [not_exists] at handover
            exact absurd (onConnection_other ops now handover) (unsaid rfl)

/-- Over every run of the event loop: a probe gives one result, the first fence without a handover
follows enough silent probes in a row, and a handover is accepted only from a live predecessor. -/
theorem daemonRun_probes_and_handover (ops : DaemonOps σ) (ctx : σ)
    (probeTimeouts fenceRetries : UInt32) (events : List Event) :
    let d := daemonRun ops (daemonInit ctx probeTimeouts fenceRetries) events
    (∀ before probe r, before ++ [.result probe r] <+: d.history →
      .started probe ∈ before ∧ ∀ r', .result probe r' ∉ before) ∧
    (∀ before ret, before ++ [.called .fence ret] <+: d.history →
      (∀ ret', .called .fence ret' ∉ before) → before.getLast? ≠ some .handover →
      probeTimeouts.toNat ≤ (silentProbes before).length ∧ (silentProbes before).Nodup) ∧
    (∀ ev, .reply "ok fencing\n" ∈ (daemonStep ops d ev).history.drop d.history.length →
      d.tk.state = .armed ∧ lastProbe d.history = some .alive ∧
      ∃ ret rest, (daemonStep ops d ev).history =
        d.history ++ .reply "ok fencing\n" :: .handover :: .called .fence ret :: rest) ∧
    (∀ input now payload, readRequest REQUEST_MAX none [] input = .ok (.handover, payload) →
      let d' := daemonStep ops d (.connection true input now)
      .reply "ok fencing\n" ∉ d'.history.drop d.history.length →
      (∃ reason, d'.history = d.history ++ [.reply ("refused " ++ reason ++ "\n")]) ∧
      d'.tk = d.tk ∧ d'.machine.ctx.1 = d.machine.ctx.1 ∧ d'.handedOver = d.handedOver) := by
  intro d
  obtain ⟨probed, guarded⟩ : Sound probeTimeouts d :=
    daemonRun_sound ops ctx probeTimeouts fenceRetries events
  -- Results come in the order their probes were started; two of one probe would break it.
  have ordered {before : List Obs} (found : before <+: d.history) :
      ((results before).map Prod.fst).Pairwise (· < ·) := by
    obtain ⟨after, same⟩ := found
    have all := probed.ordered
    rw [← same, results_append, List.map_append] at all
    exact (List.pairwise_append.mp all).1
  refine ⟨?_, ?_, ?_, ?_⟩
  · intro before probe r found
    refine ⟨probed.started before _ found probe r rfl, ?_⟩
    intro other member
    have increasing := ordered found
    rw [results_append, List.map_append] at increasing
    have earlier : (probe, other) ∈ results before := by
      exact List.mem_filterMap.mpr ⟨_, member, rfl⟩
    have below := (List.pairwise_append.mp increasing).2.2 probe
      (List.mem_map.mpr ⟨_, earlier, rfl⟩) probe (by simp)
    omega
  · intro before ret found none direct
    have caused := guarded.caused before _ found ret rfl none
    refine ⟨caused.resolve_left direct, ?_⟩
    have increasing := ordered ((List.prefix_append before _).trans found)
    exact (increasing.imp Nat.ne_of_lt).sublist (silentProbes_sublist before)
  · intro ev said
    obtain ⟨input, now, payload, rfl, request, armed, alive⟩ := daemonStep_ok_fencing ops said
    refine ⟨armed, ?_, onConnection_accepts ops now request ⟨armed, alive⟩⟩
    -- `last_result` is the last result only once there is one; before, it says ERROR.
    cases reported : d.probeReported with
    | true => rw [probed.reported reported, alive]
    | false =>
        have error := probed.unreported reported
        simp [alive] at error
  · intro input now payload request d' unsaid
    have refused : ¬ (d.tk.state = .armed ∧ d.lastResult = .alive) :=
      fun accepted => unsaid (daemonStep_accepts ops now request accepted)
    have same : d' = d.note (.reply ("refused " ++ refusal d.tk.state d.lastResult ++ "\n")) :=
      onConnection_refuses ops now request refused
    rw [same]
    exact ⟨⟨_, rfl⟩, rfl, rfl, rfl⟩

def steadyDaemon : DaemonOps Unit :=
  { steadyOps with
    dropDump := id
    takeNetwork := fun _ _ => none }

def aliveEvents : List Event := [.tick ⟨true, 7, 0, 1, 1⟩, .probeReady ECONNRESET 2]

theorem daemonRun_handover_accepted :
    let d := daemonRun steadyDaemon (daemonInit () 3 1) aliveEvents
    let ev := Event.connection true [.data "handover\n".toList] 3
    d.tk.state = .armed ∧ lastProbe d.history = some .alive ∧
      ∃ ret rest, (daemonStep steadyDaemon d ev).history =
        d.history ++ .reply "ok fencing\n" :: .handover :: .called .fence ret :: rest := by
  intro d ev
  have request : readRequest REQUEST_MAX none [] [.data "handover\n".toList] = .ok (.handover, []) := rfl
  exact (daemonRun_probes_and_handover steadyDaemon () 3 1 aliveEvents).2.2.1 ev
    (daemonStep_accepts steadyDaemon 3 request ⟨rfl, rfl⟩)

end Kmorph
