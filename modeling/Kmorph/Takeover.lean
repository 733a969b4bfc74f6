import Kmorph.TakeoverCore
import Mathlib.Data.List.Induction

/-!
Laws of the takeover state machine over every sequence of events and every
result of its ops. `Stages` is the proof rule for a property of the context: one
predicate for each stage of a takeover and one obligation for each op.
-/

namespace Kmorph

variable {σ : Type}

theorem continueTakeover_adopt_fails {ops : TakeoverOps σ} {m : Machine σ}
    (failed : (ops.adopt m.ctx).1 ≠ 0) :
    continueTakeover ops m =
      { tk := { m.tk with lastError := (ops.adopt m.ctx).1 }, ctx := (ops.adopt m.ctx).2 } :=
  if_pos failed

def finished (ops : TakeoverOps σ) (ctx : σ) : Int × σ :=
  let preserved := ops.preserve (ops.adopt ctx).2
  if preserved.1 = 0 then ops.reap preserved.2 else preserved

theorem continueTakeover_adopt_succeeds {ops : TakeoverOps σ} {m : Machine σ}
    (adopted : (ops.adopt m.ctx).1 = 0) :
    continueTakeover ops m = setState ops .takenOver
      { tk := { m.tk with lastError := (finished ops m.ctx).1 }, ctx := (finished ops m.ctx).2 } := by
  have reached : (step ops.adopt m).1 = 0 := adopted
  rw [continueTakeover, if_neg (not_not.mpr reached), finished]
  by_cases preserved : (ops.preserve (ops.adopt m.ctx).2).1 = 0
  · have kept : (step ops.preserve (step ops.adopt m).2).1 = 0 := preserved
    rw [if_pos preserved]
    exact congrArg (setState ops .takenOver) (if_pos kept)
  · have lost : (step ops.preserve (step ops.adopt m).2).1 ≠ 0 := preserved
    rw [if_neg preserved]
    exact congrArg (setState ops .takenOver) (if_neg lost)

def fencingMachine (ops : TakeoverOps σ) (m : Machine σ) : Machine σ :=
  let m := setState ops .fencing m
  { m with tk := { m.tk with fenceAttempts := m.tk.fenceAttempts + 1 } }

theorem beginTakeover_fence_fails {ops : TakeoverOps σ} {m : Machine σ}
    (failed : (ops.fence (fencingMachine ops m).ctx).1 ≠ 0) :
    beginTakeover ops m =
      setState ops .fenceFailed (step ops.fence (fencingMachine ops m)).2 :=
  if_pos failed

theorem beginTakeover_fence_succeeds {ops : TakeoverOps σ} {m : Machine σ}
    (stopped : (ops.fence (fencingMachine ops m).ctx).1 = 0) :
    beginTakeover ops m =
      continueTakeover ops (setState ops .fenced (step ops.fence (fencingMachine ops m)).2) :=
  if_neg (not_not.mpr stopped)

/-- Predicates on the context of the ops, stage by stage: `watching` before the first fence,
`failed` after a failed one, with the attempt counter, `adopted` and `preserved` inside an event. -/
structure Stages (ops : TakeoverOps σ) (retries : UInt32) where
  watching : σ → Prop
  failed : UInt32 → σ → Prop
  fenced : σ → Prop
  adopted : σ → Prop
  preserved : σ → Prop
  takenOver : σ → Prop
  watching_onState : ∀ tk s ctx, watching ctx → watching (ops.onState tk s ctx)
  failed_onState : ∀ attempts tk s ctx, failed attempts ctx → failed attempts (ops.onState tk s ctx)
  fenced_onState : ∀ tk s ctx, fenced ctx → fenced (ops.onState tk s ctx)
  takenOver_onState : ∀ tk s ctx, takenOver ctx → takenOver (ops.onState tk s ctx)
  fence_fails : ∀ attempts ctx,
    attempts = 0 ∧ watching ctx ∨ attempts ≤ retries ∧ failed attempts ctx →
    (ops.fence ctx).1 ≠ 0 → failed (attempts + 1) (ops.fence ctx).2
  fence_succeeds : ∀ attempts ctx,
    attempts = 0 ∧ watching ctx ∨ attempts ≤ retries ∧ failed attempts ctx →
    (ops.fence ctx).1 = 0 → fenced (ops.fence ctx).2
  adopt_fails : ∀ ctx, fenced ctx → (ops.adopt ctx).1 ≠ 0 → fenced (ops.adopt ctx).2
  adopt_succeeds : ∀ ctx, fenced ctx → (ops.adopt ctx).1 = 0 → adopted (ops.adopt ctx).2
  preserve_fails : ∀ ctx, adopted ctx → (ops.preserve ctx).1 ≠ 0 → takenOver (ops.preserve ctx).2
  preserve_succeeds : ∀ ctx, adopted ctx → (ops.preserve ctx).1 = 0 → preserved (ops.preserve ctx).2
  reap_returns : ∀ ctx, preserved ctx → takenOver (ops.reap ctx).2

namespace Stages

variable {ops : TakeoverOps σ} {retries : UInt32} (stages : Stages ops retries)

def Holds (m : Machine σ) : Prop :=
  m.tk.fenceRetries = retries ∧
    match m.tk.state with
    | .armed | .suspect => m.tk.fenceAttempts = 0 ∧ stages.watching m.ctx
    | .fencing => False
    | .fenceFailed => stages.failed m.tk.fenceAttempts m.ctx
    | .fenced => stages.fenced m.ctx
    | .takenOver => stages.takenOver m.ctx

theorem continueTakeover_holds {m : Machine σ} (sameRetries : m.tk.fenceRetries = retries)
    (inState : m.tk.state = .fenced) (fenced : stages.fenced m.ctx) :
    stages.Holds (continueTakeover ops m) := by
  by_cases adopted : (ops.adopt m.ctx).1 = 0
  · have kept := stages.adopt_succeeds m.ctx fenced adopted
    have last : stages.takenOver (finished ops m.ctx).2 := by
      rw [finished]
      split
      · rename_i preserved
        exact stages.reap_returns _ (stages.preserve_succeeds _ kept preserved)
      · rename_i lost
        exact stages.preserve_fails _ kept lost
    rw [continueTakeover_adopt_succeeds adopted]
    exact ⟨sameRetries, stages.takenOver_onState _ _ _ last⟩
  · rw [continueTakeover_adopt_fails adopted]
    simpa [Holds, inState, sameRetries] using stages.adopt_fails m.ctx fenced adopted

theorem beginTakeover_holds {m : Machine σ} (sameRetries : m.tk.fenceRetries = retries)
    (ready : m.tk.fenceAttempts = 0 ∧ stages.watching m.ctx ∨
      m.tk.fenceAttempts ≤ retries ∧ stages.failed m.tk.fenceAttempts m.ctx) :
    stages.Holds (beginTakeover ops m) := by
  have fencing : m.tk.fenceAttempts = 0 ∧ stages.watching (fencingMachine ops m).ctx ∨
      m.tk.fenceAttempts ≤ retries ∧ stages.failed m.tk.fenceAttempts (fencingMachine ops m).ctx :=
    ready.imp (And.imp_right (stages.watching_onState _ _ _))
      (And.imp_right (stages.failed_onState _ _ _ _))
  by_cases stopped : (ops.fence (fencingMachine ops m).ctx).1 = 0
  · rw [beginTakeover_fence_succeeds stopped]
    refine stages.continueTakeover_holds sameRetries rfl ?_
    exact stages.fenced_onState _ _ _ (stages.fence_succeeds _ _ fencing stopped)
  · rw [beginTakeover_fence_fails stopped]
    exact ⟨sameRetries, stages.failed_onState _ _ _ _ (stages.fence_fails _ _ fencing stopped)⟩

theorem handleWatching_holds {m : Machine σ} (ev : TakeoverEvent)
    (sameRetries : m.tk.fenceRetries = retries)
    (inState : m.tk.state = .armed ∨ m.tk.state = .suspect)
    (unfenced : m.tk.fenceAttempts = 0) (watching : stages.watching m.ctx) :
    stages.Holds (handleWatching ops m ev) := by
  have settled (tk : Takeover) (s : TakeoverState) := stages.watching_onState tk s m.ctx watching
  cases ev with
  | probeAlive =>
      simp only [handleWatching]
      split
      · exact ⟨sameRetries, unfenced, settled _ _⟩
      · rename_i armed
        simp only [Holds, not_not.mp armed]
        exact ⟨sameRetries, unfenced, watching⟩
  | probeSilent =>
      simp only [handleWatching]
      split
      · exact stages.beginTakeover_holds sameRetries (Or.inl ⟨unfenced, watching⟩)
      · split
        · exact ⟨sameRetries, unfenced, settled _ _⟩
        · rename_i suspect
          simp only [Holds, not_not.mp suspect]
          exact ⟨sameRetries, unfenced, watching⟩
  | request =>
      simp only [handleWatching]
      split
      · exact stages.beginTakeover_holds sameRetries (Or.inl ⟨unfenced, watching⟩)
      · rcases inState with armed | suspect
        · contradiction
        · simp only [Holds, suspect]
          exact ⟨sameRetries, unfenced, watching⟩

theorem takeoverHandle_holds {m : Machine σ} (holds : stages.Holds m) (ev : TakeoverEvent) :
    stages.Holds (takeoverHandle ops m ev) := by
  obtain ⟨sameRetries, inStage⟩ := holds
  unfold takeoverHandle
  cases state : m.tk.state with
  | armed =>
      simp only [state] at inStage
      exact stages.handleWatching_holds ev sameRetries (Or.inl state) inStage.1 inStage.2
  | suspect =>
      simp only [state] at inStage
      exact stages.handleWatching_holds ev sameRetries (Or.inr state) inStage.1 inStage.2
  | fencing => simp only [state] at inStage
  | fenceFailed =>
      simp only [state] at inStage ⊢
      split
      · rename_i retried
        exact stages.beginTakeover_holds sameRetries (Or.inr ⟨sameRetries ▸ retried.2, inStage⟩)
      · simpa only [Holds, state] using And.intro sameRetries inStage
  | fenced =>
      simp only [state] at inStage
      exact stages.continueTakeover_holds sameRetries state inStage
  | takenOver =>
      simp only [state] at inStage
      simpa only [Holds, state] using And.intro sameRetries inStage

theorem takeoverRun_holds (ctx : σ) (probeTimeouts : UInt32) (initial : stages.watching ctx)
    (events : List TakeoverEvent) :
    stages.Holds (takeoverRun ops (takeoverInit ctx probeTimeouts retries) events) := by
  refine List.foldlRecOn events (takeoverHandle ops) ?_ ?_
  · exact ⟨rfl, rfl, initial⟩
  · intro m holds ev _
    exact stages.takeoverHandle_holds holds ev

end Stages

/-- The shape of every call sequence: fences, then adopts, then the finish, where only the last
fence and the last adopt may have returned 0 and the finish follows a successful adopt. -/
def CallLaw (retries : ℕ) (calls : List (Op × Int)) : Prop :=
  ∃ (fences adopts : List Int) (finish : List (Op × Int)),
    calls = fences.map (Prod.mk .fence) ++ adopts.map (Prod.mk .adopt) ++ finish ∧
    fences.length ≤ retries + 1 ∧
    (∀ ret ∈ fences.dropLast, ret ≠ 0) ∧
    (adopts ≠ [] → fences.getLast? = some 0) ∧
    (∀ ret ∈ adopts.dropLast, ret ≠ 0) ∧
    (adopts.getLast? ≠ some 0 → finish = []) ∧
    (adopts.getLast? = some 0 →
      (∃ ret ≠ 0, finish = [(.preserve, ret)]) ∨ ∃ ret, finish = [(.preserve, 0), (.reap, ret)])

def FencedCalls (retries : ℕ) (rest calls : List (Op × Int)) : Prop :=
  ∃ fences adopts : List Int,
    calls = fences.map (Prod.mk .fence) ++ (Op.fence, 0) :: adopts.map (Prod.mk .adopt) ++ rest ∧
    fences.length ≤ retries ∧ (∀ ret ∈ fences, ret ≠ 0) ∧ ∀ ret ∈ adopts, ret ≠ 0

structure Logs {α : Type} (ops : TakeoverOps σ) (history : σ → List α) (call : Op × Int → α) :
    Prop where
  fence : ∀ ctx, history (ops.fence ctx).2 = history ctx ++ [call (.fence, (ops.fence ctx).1)]
  adopt : ∀ ctx, history (ops.adopt ctx).2 = history ctx ++ [call (.adopt, (ops.adopt ctx).1)]
  preserve : ∀ ctx,
    history (ops.preserve ctx).2 = history ctx ++ [call (.preserve, (ops.preserve ctx).1)]
  reap : ∀ ctx, history (ops.reap ctx).2 = history ctx ++ [call (.reap, (ops.reap ctx).1)]
  onState : ∀ tk s ctx, history (ops.onState tk s ctx) = history ctx

theorem logged_logs (ops : TakeoverOps σ) : Logs ops.logged Prod.snd id :=
  ⟨fun _ => rfl, fun _ => rfl, fun _ => rfl, fun _ => rfl, fun _ _ _ => rfl⟩

theorem fences_of_ready {retries attempts : UInt32} {calls : List (Op × Int)}
    (ready : attempts = 0 ∧ calls = [] ∨ attempts ≤ retries ∧
      ∃ fences : List Int, calls = fences.map (Prod.mk .fence) ∧ fences ≠ [] ∧
        fences.length = attempts.toNat ∧ attempts.toNat ≤ retries.toNat + 1 ∧ ∀ ret ∈ fences, ret ≠ 0) :
    ∃ fences : List Int, calls = fences.map (Prod.mk .fence) ∧ fences.length = attempts.toNat ∧
      attempts.toNat ≤ retries.toNat ∧ ∀ ret ∈ fences, ret ≠ 0 := by
  rcases ready with ⟨zero, none⟩ | ⟨within, fences, same, _, length, _, failed⟩
  · exact ⟨[], by simpa using none, by simp [zero], by simp [zero], by simp⟩
  · exact ⟨fences, same, length, UInt32.le_iff_toNat_le.mp within, failed⟩

theorem ne_zero_of_mem_append {rets : List Int} {last : Int} (failed : ∀ ret ∈ rets, ret ≠ 0)
    (lastFailed : last ≠ 0) : ∀ ret ∈ rets ++ [last], ret ≠ 0 := by
  intro ret member
  rcases List.mem_append.mp member with old | new
  · exact failed ret old
  · rw [List.mem_singleton.mp new]
    exact lastFailed

def callStages {ops : TakeoverOps σ} {calls : σ → List (Op × Int)} (logs : Logs ops calls id)
    (retries : UInt32) (bounded : retries.toNat < 2 ^ 32 - 1) : Stages ops retries where
  watching ctx := calls ctx = []
  failed attempts ctx := ∃ fences : List Int, calls ctx = fences.map (Prod.mk .fence) ∧
    fences ≠ [] ∧ fences.length = attempts.toNat ∧ attempts.toNat ≤ retries.toNat + 1 ∧
    ∀ ret ∈ fences, ret ≠ 0
  fenced ctx := FencedCalls retries.toNat [] (calls ctx)
  adopted ctx := FencedCalls retries.toNat [(.adopt, 0)] (calls ctx)
  preserved ctx := FencedCalls retries.toNat [(.adopt, 0), (.preserve, 0)] (calls ctx)
  takenOver ctx :=
    (∃ ret ≠ 0, FencedCalls retries.toNat [(.adopt, 0), (.preserve, ret)] (calls ctx)) ∨
      ∃ ret, FencedCalls retries.toNat [(.adopt, 0), (.preserve, 0), (.reap, ret)] (calls ctx)
  watching_onState tk s ctx watching := (logs.onState tk s ctx).trans watching
  failed_onState _ tk s ctx failed := by rwa [logs.onState]
  fenced_onState tk s ctx fenced := by rwa [logs.onState]
  takenOver_onState tk s ctx takenOver := by rwa [logs.onState]
  fence_fails := by
    intro attempts ctx ready ret
    obtain ⟨fences, before, length, within, failed⟩ := fences_of_ready ready
    have next : (attempts + 1).toNat = attempts.toNat + 1 := by
      rw [UInt32.toNat_add]
      exact Nat.mod_eq_of_lt (by simp only [UInt32.toNat_one]; omega)
    refine ⟨fences ++ [(ops.fence ctx).1], ?_, by simp, ?_, by omega,
      ne_zero_of_mem_append failed ret⟩
    · simp [logs.fence, before]
    · simp [length, next]
  fence_succeeds := by
    intro attempts ctx ready ret
    obtain ⟨fences, before, length, within, failed⟩ := fences_of_ready ready
    exact ⟨fences, [], by simp [logs.fence, before, ret], by omega, failed, by simp⟩
  adopt_fails := by
    rintro ctx ⟨fences, adopts, before, length, fencesFailed, adoptsFailed⟩ ret
    exact ⟨fences, adopts ++ [(ops.adopt ctx).1], by simp [logs.adopt, before], length, fencesFailed,
      ne_zero_of_mem_append adoptsFailed ret⟩
  adopt_succeeds := by
    rintro ctx ⟨fences, adopts, before, facts⟩ ret
    exact ⟨fences, adopts, by simp [logs.adopt, before, ret], facts⟩
  preserve_fails := by
    rintro ctx ⟨fences, adopts, before, facts⟩ ret
    exact Or.inl ⟨(ops.preserve ctx).1, ret, fences, adopts, by simp [logs.preserve, before], facts⟩
  preserve_succeeds := by
    rintro ctx ⟨fences, adopts, before, facts⟩ ret
    exact ⟨fences, adopts, by simp [logs.preserve, before, ret], facts⟩
  reap_returns := by
    rintro ctx ⟨fences, adopts, before, facts⟩
    exact Or.inr ⟨(ops.reap ctx).1, fences, adopts, by simp [logs.reap, before], facts⟩

theorem FencedCalls.law {retries : ℕ} {calls : List (Op × Int)}
    (unfinished : FencedCalls retries [] calls) : CallLaw retries calls := by
  obtain ⟨fences, adopts, rfl, length, fencesFailed, adoptsFailed⟩ := unfinished
  refine ⟨fences ++ [0], adopts, [], by simp, by simpa using length, by simpa using fencesFailed,
    by simp, fun ret member => adoptsFailed ret (List.dropLast_subset _ member), by simp, ?_⟩
  intro succeeded
  exact absurd rfl (adoptsFailed 0 (List.mem_of_getLast? succeeded))

theorem FencedCalls.law_finished {retries : ℕ} {calls finish : List (Op × Int)}
    (finished : FencedCalls retries ((.adopt, 0) :: finish) calls)
    (ending : (∃ ret ≠ 0, finish = [(.preserve, ret)]) ∨
      ∃ ret, finish = [(.preserve, 0), (.reap, ret)]) : CallLaw retries calls := by
  obtain ⟨fences, adopts, rfl, length, fencesFailed, adoptsFailed⟩ := finished
  exact ⟨fences ++ [0], adopts ++ [0], finish, by simp, by simpa using length,
    by simpa using fencesFailed, by simp, by simpa using adoptsFailed, by simp, fun _ => ending⟩

theorem callStages_law {ops : TakeoverOps σ} {calls : σ → List (Op × Int)} {logs : Logs ops calls id}
    {retries : UInt32} {bounded : retries.toNat < 2 ^ 32 - 1} {m : Machine σ}
    (holds : (callStages logs retries bounded).Holds m) : CallLaw retries.toNat (calls m.ctx) := by
  obtain ⟨_, inStage⟩ := holds
  have unfenced (none : calls m.ctx = []) : CallLaw retries.toNat (calls m.ctx) :=
    ⟨[], [], [], by simp [none], by simp, by simp, by simp⟩
  cases state : m.tk.state with
  | armed =>
      simp only [state] at inStage
      exact unfenced inStage.2
  | suspect =>
      simp only [state] at inStage
      exact unfenced inStage.2
  | fencing => simp only [state] at inStage
  | fenceFailed =>
      simp only [state] at inStage
      obtain ⟨fences, same, _, length, within, failed⟩ := inStage
      exact ⟨fences, [], [], by simpa using same, by omega,
        fun ret member => failed ret (List.dropLast_subset _ member), by simp⟩
  | fenced =>
      simp only [state] at inStage
      exact FencedCalls.law inStage
  | takenOver =>
      simp only [state] at inStage
      rcases inStage with ⟨ret, lost, finish⟩ | ⟨ret, finish⟩
      · exact finish.law_finished (Or.inl ⟨ret, lost, rfl⟩)
      · exact finish.law_finished (Or.inr ⟨ret, rfl⟩)

def TakeoverState.begun : TakeoverState → Bool
  | .armed | .suspect => false
  | .fencing | .fenceFailed | .fenced | .takenOver => true

theorem TakeoverState.begun_eq_false_iff {state : TakeoverState} :
    state.begun = false ↔ state = .armed ∨ state = .suspect := by
  cases state <;> simp [begun]

theorem continueTakeover_tk (ops : TakeoverOps σ) (m : Machine σ) :
    ∃ state ret, (continueTakeover ops m).tk = { m.tk with state := state, lastError := ret } ∧
      (state = m.tk.state ∨ state = .takenOver) := by
  by_cases adopted : (ops.adopt m.ctx).1 = 0
  · rw [continueTakeover_adopt_succeeds adopted]
    exact ⟨_, _, rfl, Or.inr rfl⟩
  · rw [continueTakeover_adopt_fails adopted]
    exact ⟨_, _, rfl, Or.inl rfl⟩

theorem takeoverHandle_request {ops : TakeoverOps σ} {m : Machine σ} (armed : m.tk.state = .armed) :
    takeoverHandle ops m .request = beginTakeover ops m := by
  simp only [takeoverHandle, armed, handleWatching, if_true]

theorem beginTakeover_tk (ops : TakeoverOps σ) (m : Machine σ) :
    ∃ state ret, (beginTakeover ops m).tk =
      { m.tk with state := state, fenceAttempts := m.tk.fenceAttempts + 1, lastError := ret } ∧
      state.begun = true := by
  by_cases stopped : (ops.fence (fencingMachine ops m).ctx).1 = 0
  · rw [beginTakeover_fence_succeeds stopped]
    obtain ⟨state, ret, tk, reached⟩ := continueTakeover_tk ops
      (setState ops .fenced (step ops.fence (fencingMachine ops m)).2)
    refine ⟨state, ret, tk, ?_⟩
    rcases reached with same | final
    · rw [same]
      rfl
    · rw [final]
      rfl
  · rw [beginTakeover_fence_fails stopped]
    exact ⟨_, _, rfl, rfl⟩

structure Watching (probeTimeouts : UInt32) (streak : ℕ) (tk : Takeover) : Prop where
  threshold : tk.probeTimeouts = probeTimeouts
  armed : tk.state = .armed → tk.silent = 0 ∧ streak = 0
  suspect : tk.state = .suspect →
    tk.silent.toNat = streak ∧ 0 < streak ∧ streak < probeTimeouts.toNat

theorem watching_begun {probeTimeouts : UInt32} {streak : ℕ} {tk : Takeover}
    (threshold : tk.probeTimeouts = probeTimeouts) (begun : tk.state.begun = true) :
    Watching probeTimeouts streak tk := by
  refine ⟨threshold, ?_, ?_⟩
  · intro armed
    simp [armed, TakeoverState.begun] at begun
  · intro suspect
    simp [suspect, TakeoverState.begun] at begun

theorem silentStreak_append (events : List TakeoverEvent) (ev : TakeoverEvent) :
    silentStreak (events ++ [ev]) = nextStreak (silentStreak events) ev := by
  simp [silentStreak]

theorem Watching.below {probeTimeouts : UInt32} {streak : ℕ} {tk : Takeover}
    (watching : Watching probeTimeouts streak tk)
    (inState : tk.state = .armed ∨ tk.state = .suspect) :
    tk.silent.toNat = streak ∧ (streak = 0 ∨ streak < probeTimeouts.toNat) ∧
      (tk.silent + 1).toNat = streak + 1 := by
  have counted : tk.silent.toNat = streak ∧ (streak = 0 ∨ streak < probeTimeouts.toNat) := by
    rcases inState with armed | suspect
    · have zero := watching.armed armed
      simp [zero.1, zero.2]
    · have inside := watching.suspect suspect
      omega
  have bound := probeTimeouts.toNat_lt
  refine ⟨counted.1, counted.2, ?_⟩
  rw [UInt32.toNat_add, counted.1]
  exact Nat.mod_eq_of_lt (by simp only [UInt32.toNat_one]; omega)

theorem handleWatching_watching {ops : TakeoverOps σ} {m : Machine σ} {probeTimeouts : UInt32}
    {streak : ℕ} (ev : TakeoverEvent)
    (watching : Watching probeTimeouts streak m.tk)
    (inState : m.tk.state = .armed ∨ m.tk.state = .suspect) :
    Watching probeTimeouts (nextStreak streak ev) (handleWatching ops m ev).tk := by
  have counted := watching.below inState
  -- A takeover that begins leaves the watching states, so the counter no longer matters.
  have begins (m : Machine σ) (same : m.tk.probeTimeouts = probeTimeouts) (streak : ℕ) :
      Watching probeTimeouts streak (beginTakeover ops m).tk := by
    obtain ⟨state, ret, tk, begun⟩ := beginTakeover_tk ops m
    rw [tk]
    exact watching_begun same begun
  cases ev with
  | probeAlive =>
      simp only [handleWatching, nextStreak]
      split
      · exact ⟨watching.threshold, fun _ => ⟨rfl, rfl⟩, by simp [setState]⟩
      · rename_i armed
        exact ⟨watching.threshold, fun _ => ⟨rfl, rfl⟩, by simp [not_not.mp armed]⟩
  | probeSilent =>
      simp only [handleWatching, nextStreak]
      split
      · apply begins
        exact watching.threshold
      · rename_i below
        have short : streak + 1 < probeTimeouts.toNat := by
          rw [ge_iff_le, UInt32.le_iff_toNat_le, watching.threshold, counted.2.2] at below
          omega
        split
        · refine ⟨watching.threshold, by simp [setState], ?_⟩
          intro _
          exact ⟨counted.2.2, by omega, short⟩
        · rename_i suspect
          refine ⟨watching.threshold, by simp [not_not.mp suspect], ?_⟩
          intro _
          exact ⟨counted.2.2, by omega, short⟩
  | request =>
      simp only [handleWatching, nextStreak]
      split
      · exact begins _ watching.threshold _
      · exact watching

theorem takeoverHandle_watching {ops : TakeoverOps σ} {m : Machine σ} {probeTimeouts : UInt32}
    {streak : ℕ} (ev : TakeoverEvent)
    (watching : Watching probeTimeouts streak m.tk) :
    Watching probeTimeouts (nextStreak streak ev) (takeoverHandle ops m ev).tk := by
  unfold takeoverHandle
  cases state : m.tk.state with
  | armed => exact handleWatching_watching ev watching (Or.inl state)
  | suspect => exact handleWatching_watching ev watching (Or.inr state)
  | fencing => exact ⟨watching.threshold, by simp [state], by simp [state]⟩
  | fenceFailed =>
      simp only
      split
      · obtain ⟨next, ret, tk, begun⟩ := beginTakeover_tk ops m
        rw [tk]
        exact watching_begun watching.threshold begun
      · exact watching_begun watching.threshold (by simp [state, TakeoverState.begun])
  | fenced =>
      obtain ⟨next, ret, tk, reached⟩ := continueTakeover_tk ops m
      simp only [tk]
      refine watching_begun watching.threshold ?_
      rcases reached with same | final
      · simp [same, state, TakeoverState.begun]
      · simp [final, TakeoverState.begun]
  | takenOver => exact watching_begun watching.threshold (by simp [state, TakeoverState.begun])

theorem takeoverRun_append (ops : TakeoverOps σ) (m : Machine σ) (first second : List TakeoverEvent) :
    takeoverRun ops m (first ++ second) = takeoverRun ops (takeoverRun ops m first) second := by
  simp [takeoverRun]

theorem takeoverRun_watching (ops : TakeoverOps σ) (ctx : σ) (probeTimeouts retries : UInt32)
    (events : List TakeoverEvent) : Watching probeTimeouts (silentStreak events)
      (takeoverRun ops (takeoverInit ctx probeTimeouts retries) events).tk := by
  induction events using List.reverseRecOn with
  | nil => exact ⟨rfl, fun _ => ⟨rfl, rfl⟩, by simp [takeoverRun, takeoverInit]⟩
  | append_singleton events ev ih =>
      rw [takeoverRun_append, silentStreak_append]
      exact takeoverHandle_watching ev ih

def Takeover.Unfenced (tk : Takeover) : Prop :=
  tk.state.begun = false ∨ tk.state = .fenceFailed ∧ tk.fenceAttempts ≤ tk.fenceRetries

inductive Round (before after : Takeover) : List (Op × Int) → Prop
  | quiet : (before.state.begun = true → after = before) →
      (before.state.begun = false → after.state.begun = false) →
      after.fenceAttempts = before.fenceAttempts → Round before after []
  | fenceFails (ret : Int) : before.Unfenced → ret ≠ 0 → after.state = .fenceFailed →
      after.fenceAttempts = before.fenceAttempts + 1 → Round before after [(.fence, ret)]
  | adoptFails (fences : List (Op × Int)) (ret : Int) :
      fences = [] ∧ before.state = .fenced ∨ fences = [(.fence, 0)] →
      ret ≠ 0 → after.state = .fenced → Round before after (fences ++ [(.adopt, ret)])
  | finishes (fences finish : List (Op × Int)) :
      fences = [] ∧ before.state = .fenced ∨ fences = [(.fence, 0)] →
      (∀ c ∈ finish, c.1 = .preserve ∨ c.1 = .reap) → after.state = .takenOver →
      Round before after (fences ++ (.adopt, 0) :: finish)

section Rounds

variable {α : Type} {ops : TakeoverOps σ} {history : σ → List α} {call : Op × Int → α}

theorem finished_history (logs : Logs ops history call) (ctx : σ) :
    ∃ finish : List (Op × Int), (∀ c ∈ finish, c.1 = .preserve ∨ c.1 = .reap) ∧
      history (finished ops ctx).2 = history (ops.adopt ctx).2 ++ finish.map call := by
  rw [finished]
  split
  · exact ⟨[(.preserve, (ops.preserve (ops.adopt ctx).2).1),
      (.reap, (ops.reap (ops.preserve (ops.adopt ctx).2).2).1)], by simp,
      by simp [logs.preserve, logs.reap]⟩
  · exact ⟨[(.preserve, (ops.preserve (ops.adopt ctx).2).1)], by simp, by simp [logs.preserve]⟩

theorem continueTakeover_round (logs : Logs ops history call) {m : Machine σ}
    (inState : m.tk.state = .fenced) (before : Takeover) {fences : List (Op × Int)}
    (stopped : fences = [] ∧ before.state = .fenced ∨ fences = [(.fence, 0)]) :
    ∃ new, history (continueTakeover ops m).ctx = history m.ctx ++ new.map call ∧
      Round before (continueTakeover ops m).tk (fences ++ new) := by
  by_cases adopted : (ops.adopt m.ctx).1 = 0
  · obtain ⟨finish, last, same⟩ := finished_history logs m.ctx
    rw [continueTakeover_adopt_succeeds adopted]
    refine ⟨(.adopt, 0) :: finish, ?_, .finishes _ _ stopped last rfl⟩
    simp [setState, logs.onState, same, logs.adopt, adopted]
  · rw [continueTakeover_adopt_fails adopted]
    exact ⟨[(.adopt, _)], logs.adopt _, .adoptFails _ _ stopped adopted inState⟩

theorem beginTakeover_round (logs : Logs ops history call) (m : Machine σ) {before : Takeover}
    (unfenced : before.Unfenced) (sameAttempts : m.tk.fenceAttempts = before.fenceAttempts) :
    ∃ ret rest, history (beginTakeover ops m).ctx =
        history m.ctx ++ ((Op.fence, ret) :: rest).map call ∧
      Round before (beginTakeover ops m).tk ((Op.fence, ret) :: rest) := by
  have same : history (fencingMachine ops m).ctx = history m.ctx := logs.onState _ _ _
  by_cases stopped : (ops.fence (fencingMachine ops m).ctx).1 = 0
  · rw [beginTakeover_fence_succeeds stopped]
    obtain ⟨new, grown, round⟩ := continueTakeover_round logs
      (show (setState ops .fenced (step ops.fence (fencingMachine ops m)).2).tk.state = .fenced
        from rfl) before (Or.inr rfl)
    refine ⟨0, new, ?_, round⟩
    rw [grown]
    simp [setState, step, logs.onState, logs.fence, same, stopped]
  · rw [beginTakeover_fence_fails stopped]
    refine ⟨_, [], ?_, .fenceFails _ unfenced stopped rfl (congrArg (· + 1) sameAttempts)⟩
    simp [setState, step, logs.onState, logs.fence, same]

theorem quiet_of_begun {before : Takeover} (begun : before.state.begun = true) :
    Round before before [] :=
  .quiet (fun _ => rfl) (fun watching => by simp [begun] at watching) rfl

theorem quiet_of_watching {before after : Takeover} (was : before.state.begun = false)
    (still : after.state.begun = false) (attempts : after.fenceAttempts = before.fenceAttempts) :
    Round before after [] :=
  .quiet (fun begun => by simp [was] at begun) (fun _ => still) attempts

theorem handleWatching_round (logs : Logs ops history call) {m : Machine σ} (ev : TakeoverEvent)
    (watching : m.tk.state.begun = false) :
    ∃ new, history (handleWatching ops m ev).ctx = history m.ctx ++ new.map call ∧
      Round m.tk (handleWatching ops m ev).tk new := by
  have begins (m' : Machine σ) (sameCtx : m'.ctx = m.ctx)
      (sameAttempts : m'.tk.fenceAttempts = m.tk.fenceAttempts) :
      ∃ new, history (beginTakeover ops m').ctx = history m.ctx ++ new.map call ∧
        Round m.tk (beginTakeover ops m').tk new := by
    obtain ⟨ret, rest, grown, round⟩ := beginTakeover_round logs m' (Or.inl watching) sameAttempts
    exact ⟨_, sameCtx ▸ grown, round⟩
  cases ev with
  | probeAlive =>
      simp only [handleWatching]
      split
      · exact ⟨[], by simp [setState, logs.onState], quiet_of_watching watching rfl rfl⟩
      · exact ⟨[], by simp, quiet_of_watching watching watching rfl⟩
  | probeSilent =>
      simp only [handleWatching]
      split
      · exact begins _ rfl rfl
      · split
        · exact ⟨[], by simp [setState, logs.onState], quiet_of_watching watching rfl rfl⟩
        · exact ⟨[], by simp, quiet_of_watching watching watching rfl⟩
  | request =>
      simp only [handleWatching]
      split
      · exact begins _ rfl rfl
      · exact ⟨[], by simp, quiet_of_watching watching watching rfl⟩

theorem takeoverHandle_round (logs : Logs ops history call) (m : Machine σ) (ev : TakeoverEvent) :
    ∃ new, history (takeoverHandle ops m ev).ctx = history m.ctx ++ new.map call ∧
      Round m.tk (takeoverHandle ops m ev).tk new := by
  unfold takeoverHandle
  cases state : m.tk.state with
  | armed => exact handleWatching_round logs ev (by rw [state]; rfl)
  | suspect => exact handleWatching_round logs ev (by rw [state]; rfl)
  | fencing => exact ⟨[], by simp, quiet_of_begun (by rw [state]; rfl)⟩
  | fenceFailed =>
      simp only
      split
      · rename_i retried
        obtain ⟨ret, rest, grown, round⟩ := beginTakeover_round logs m (Or.inr ⟨state, retried.2⟩) rfl
        exact ⟨_, grown, round⟩
      · exact ⟨[], by simp, quiet_of_begun (by rw [state]; rfl)⟩
  | fenced => exact continueTakeover_round logs state m.tk (Or.inl ⟨rfl, state⟩)
  | takenOver => exact ⟨[], by simp, quiet_of_begun (by rw [state]; rfl)⟩

theorem Round.starts {before after : Takeover} {new : List (Op × Int)} (round : Round before after new)
    (watching : before.state.begun = false) :
    new = [] ∨ ∃ ret rest, new = (Op.fence, ret) :: rest := by
  have unreached : before.state ≠ .fenced := by
    intro fenced
    simp [fenced, TakeoverState.begun] at watching
  cases round with
  | quiet => exact Or.inl rfl
  | fenceFails ret => exact Or.inr ⟨ret, [], rfl⟩
  | adoptFails fences ret stopped =>
      rcases stopped with ⟨_, fenced⟩ | rfl
      · exact absurd fenced unreached
      · exact Or.inr ⟨0, _, rfl⟩
  | finishes fences finish stopped =>
      rcases stopped with ⟨_, fenced⟩ | rfl
      · exact absurd fenced unreached
      · exact Or.inr ⟨0, _, rfl⟩

theorem Round.begun {before after : Takeover} {new : List (Op × Int)}
    (round : Round before after new) :
    after.state.begun = true ↔ before.state.begun = true ∨ ∃ ret, (Op.fence, ret) ∈ new := by
  cases round with
  | quiet begun watching =>
      cases state : before.state.begun with
      | true => simp [begun state, state]
      | false => simp [watching state]
  | fenceFails ret _ _ state => simp [state, TakeoverState.begun]
  | adoptFails fences ret stopped _ state =>
      rcases stopped with ⟨rfl, fenced⟩ | rfl <;> simp [*, TakeoverState.begun]
  | finishes fences finish stopped _ state =>
      rcases stopped with ⟨rfl, fenced⟩ | rfl <;> simp [*, TakeoverState.begun]

end Rounds

structure CallsMatch (calls : List (Op × Int)) (state : TakeoverState) : Prop where
  watching : (∀ ret, (Op.fence, ret) ∉ calls) → calls = [] ∧ (state = .armed ∨ state = .suspect)
  begun : (∃ ret, (Op.fence, ret) ∈ calls) → state ≠ .armed ∧ state ≠ .suspect
  fencing : state ≠ .fencing
  finished : state = .takenOver ↔ ∃ ret, (Op.preserve, ret) ∈ calls

theorem FencedCalls.fence_mem {retries : ℕ} {rest calls : List (Op × Int)}
    (fenced : FencedCalls retries rest calls) : (Op.fence, 0) ∈ calls := by
  obtain ⟨fences, adopts, rfl, _⟩ := fenced
  simp

theorem FencedCalls.preserve_mem {retries : ℕ} {rest calls : List (Op × Int)}
    (fenced : FencedCalls retries rest calls) (ret : Int) :
    (Op.preserve, ret) ∈ calls ↔ (Op.preserve, ret) ∈ rest := by
  obtain ⟨fences, adopts, rfl, _⟩ := fenced
  simp

theorem callsMatch_watching {state : TakeoverState} (inState : state = .armed ∨ state = .suspect) :
    CallsMatch [] state := by
  refine ⟨fun _ => ⟨rfl, inState⟩, by simp, ?_, ?_⟩
  · rcases inState with rfl | rfl <;> simp
  · rcases inState with rfl | rfl <;> simp

theorem FencedCalls.callsMatch {retries : ℕ} {rest calls : List (Op × Int)} {state : TakeoverState}
    (fenced : FencedCalls retries rest calls) (inState : state = .fenced ∨ state = .takenOver)
    (final : state = .takenOver ↔ ∃ ret, (Op.preserve, ret) ∈ rest) : CallsMatch calls state := by
  refine ⟨fun none => absurd fenced.fence_mem (none 0), fun _ => ?_, ?_, ?_⟩
  · rcases inState with rfl | rfl <;> simp
  · rcases inState with rfl | rfl <;> simp
  · simp only [fenced.preserve_mem, final]

theorem callStages_match {ops : TakeoverOps σ} {calls : σ → List (Op × Int)} {logs : Logs ops calls id}
    {retries : UInt32} {bounded : retries.toNat < 2 ^ 32 - 1} {m : Machine σ}
    (holds : (callStages logs retries bounded).Holds m) : CallsMatch (calls m.ctx) m.tk.state := by
  obtain ⟨_, inStage⟩ := holds
  cases state : m.tk.state with
  | armed =>
      simp only [state] at inStage
      have none : calls m.ctx = [] := inStage.2
      rw [none]
      exact callsMatch_watching (Or.inl rfl)
  | suspect =>
      simp only [state] at inStage
      have none : calls m.ctx = [] := inStage.2
      rw [none]
      exact callsMatch_watching (Or.inr rfl)
  | fencing => simp only [state] at inStage
  | fenceFailed =>
      simp only [state] at inStage
      obtain ⟨fences, same, some, _⟩ := inStage
      refine ⟨?_, by simp, by simp, by simp [same]⟩
      intro none
      obtain ⟨ret, rest, rfl⟩ := List.exists_cons_of_ne_nil some
      exact absurd (by simp [same]) (none ret)
  | fenced =>
      simp only [state] at inStage
      exact FencedCalls.callsMatch inStage (Or.inl rfl) (by simp)
  | takenOver =>
      simp only [state] at inStage
      rcases inStage with ⟨ret, _, finish⟩ | ⟨ret, finish⟩
      · exact finish.callsMatch (Or.inr rfl) (by simp)
      · exact finish.callsMatch (Or.inr rfl) (by simp)

theorem takeoverRun_takenOver {ops : TakeoverOps σ} {m : Machine σ}
    (final : m.tk.state = .takenOver) (events : List TakeoverEvent) :
    takeoverRun ops m events = m := by
  induction events with
  | nil => rfl
  | cons ev events ih =>
      have ignored : takeoverHandle ops m ev = m := by simp [takeoverHandle, final]
      rw [takeoverRun, List.foldl_cons, ignored]
      exact ih

theorem handleWatching_quiet {α : Type} {ops : TakeoverOps σ} {history : σ → List α}
    {call : Op × Int → α} (logs : Logs ops history call) {m : Machine σ} {ev : TakeoverEvent}
    (request : ¬ (ev = .request ∧ m.tk.state = .armed))
    (silence : ¬ (ev = .probeSilent ∧ m.tk.silent + 1 ≥ m.tk.probeTimeouts)) :
    history (handleWatching ops m ev).ctx = history m.ctx := by
  cases ev with
  | probeAlive =>
      simp only [handleWatching]
      split
      · exact logs.onState _ _ _
      · rfl
  | probeSilent =>
      simp only [true_and] at silence
      simp only [handleWatching, silence, if_false]
      split
      · exact logs.onState _ _ _
      · rfl
  | request =>
      simp only [true_and] at request
      simp only [handleWatching, request, if_false]

theorem takeoverHandle_quiet {α : Type} {ops : TakeoverOps σ} {history : σ → List α}
    {call : Op × Int → α} (logs : Logs ops history call) {m : Machine σ} {ev : TakeoverEvent}
    {probeTimeouts : UInt32} {streak : ℕ} (watching : Watching probeTimeouts streak m.tk)
    (inState : m.tk.state = .armed ∨ m.tk.state = .suspect)
    (request : ¬ (ev = .request ∧ m.tk.state = .armed))
    (silence : ¬ (ev = .probeSilent ∧ probeTimeouts.toNat ≤ streak + 1)) :
    history (takeoverHandle ops m ev).ctx = history m.ctx := by
  have counted := watching.below inState
  have handled : takeoverHandle ops m ev = handleWatching ops m ev := by
    rcases inState with armed | suspect <;> simp [takeoverHandle, *]
  rw [handled]
  refine handleWatching_quiet logs request ?_
  rintro ⟨rfl, enough⟩
  rw [ge_iff_le, UInt32.le_iff_toNat_le, watching.threshold, counted.2.2] at enough
  exact silence ⟨rfl, enough⟩

theorem firstFence_cause {ops : TakeoverOps σ} {calls : σ → List (Op × Int)} (logs : Logs ops calls id)
    {m : Machine σ} {probeTimeouts : UInt32} {events : List TakeoverEvent} {ev : TakeoverEvent}
    (threshold : 1 ≤ probeTimeouts.toNat)
    (watching : Watching probeTimeouts (silentStreak events) m.tk)
    (matched : CallsMatch (calls m.ctx) m.tk.state) (none : ∀ ret, (Op.fence, ret) ∉ calls m.ctx)
    (some : ∃ ret, (Op.fence, ret) ∈ calls (takeoverHandle ops m ev).ctx) :
    ev = .request ∧ m.tk.state = .armed ∨
      ev = .probeSilent ∧ silentStreak (events ++ [ev]) = probeTimeouts.toNat := by
  obtain ⟨empty, inState⟩ := matched.watching none
  by_contra other
  rw [not_or] at other
  have counted := watching.below inState
  have quiet := takeoverHandle_quiet logs watching inState other.1 (by
    rintro ⟨rfl, reached⟩
    refine other.2 ⟨rfl, ?_⟩
    rw [silentStreak_append]
    exact (by omega : silentStreak events + 1 = probeTimeouts.toNat))
  obtain ⟨ret, called⟩ := some
  rw [quiet, empty] at called
  simp at called

/-- The law of the takeover machine over every run: the shape of the calls, what causes the first
fence, and what each state says about the calls made. -/
theorem takeoverRun_law (ops : TakeoverOps σ) (ctx : σ) (probeTimeouts fenceRetries : UInt32)
    (threshold : 1 ≤ probeTimeouts.toNat) (bounded : fenceRetries.toNat < 2 ^ 32 - 1)
    (events : List TakeoverEvent) :
    let run := takeoverRun ops.logged (takeoverInit (ctx, []) probeTimeouts fenceRetries)
    let m := run events
    CallLaw fenceRetries.toNat m.ctx.2 ∧
    ((∃ ret, (Op.preserve, ret) ∈ m.ctx.2) → ∀ later, (run (events ++ later)).ctx.2 = m.ctx.2) ∧
    (∀ before ev after, events = before ++ ev :: after →
      (∀ ret, (Op.fence, ret) ∉ (run before).ctx.2) →
      (∃ ret, (Op.fence, ret) ∈ (run (before ++ [ev])).ctx.2) →
      ev = .request ∧ (run before).tk.state = .armed ∨
        ev = .probeSilent ∧ silentStreak (before ++ [ev]) = probeTimeouts.toNat) ∧
    ((∀ ret, (Op.fence, ret) ∉ m.ctx.2) →
      (m.tk.state = .armed ↔ m.tk.silent = 0) ∧
      (m.tk.state = .suspect ↔ 0 < m.tk.silent ∧ m.tk.silent < probeTimeouts)) ∧
    m.tk.state ≠ .fencing ∧
    ((∃ ret, (Op.fence, ret) ∈ m.ctx.2) → m.tk.state ≠ .armed ∧ m.tk.state ≠ .suspect) ∧
    (m.tk.state = .takenOver ↔ ∃ ret, (Op.preserve, ret) ∈ m.ctx.2) := by
  intro run m
  have holds (events : List TakeoverEvent) :
      (callStages (logged_logs ops) fenceRetries bounded).Holds (run events) :=
    (callStages (logged_logs ops) fenceRetries bounded).takeoverRun_holds (ctx, []) probeTimeouts
      rfl events
  have watching (events : List TakeoverEvent) :
      Watching probeTimeouts (silentStreak events) (run events).tk :=
    takeoverRun_watching ops.logged (ctx, []) probeTimeouts fenceRetries events
  have calls (events : List TakeoverEvent) :
      CallsMatch (run events).ctx.2 (run events).tk.state :=
    callStages_match (holds events)
  refine ⟨callStages_law (holds events), ?_, ?_, ?_, (calls events).fencing,
    (calls events).begun, (calls events).finished⟩
  · intro preserved later
    have final : m.tk.state = .takenOver := (calls events).finished.mpr preserved
    have same : run (events ++ later) = m :=
      (takeoverRun_append ops.logged _ events later).trans (takeoverRun_takenOver final later)
    rw [same]
  · intro before ev after _ none some
    have last : run (before ++ [ev]) = takeoverHandle ops.logged (run before) ev :=
      takeoverRun_append ops.logged _ before [ev]
    rw [last] at some
    exact firstFence_cause (logged_logs ops) threshold (watching before) (calls before) none some
  · intro none
    have zero : m.tk.silent = 0 ↔ m.tk.silent.toNat = 0 := UInt32.toNat_inj.symm
    rw [UInt32.lt_iff_toNat_lt, UInt32.lt_iff_toNat_lt, UInt32.toNat_zero, zero]
    obtain ⟨_, inState⟩ := (calls events).watching none
    rcases inState with armed | suspect
    · have count := (watching events).armed armed
      have state : m.tk.state = .armed := armed
      have silent : m.tk.silent = 0 := count.1
      simp [state, silent]
    · have count := (watching events).suspect suspect
      have state : m.tk.state = .suspect := suspect
      have silent : m.tk.silent.toNat = silentStreak events := count.1
      simp only [state, silent]
      refine ⟨⟨by simp, by omega⟩, fun _ => by omega, fun _ => trivial⟩

def steadyOps : TakeoverOps Unit where
  fence ctx := (0, ctx)
  adopt ctx := (0, ctx)
  preserve ctx := (0, ctx)
  reap ctx := (0, ctx)
  onState _ _ ctx := ctx

theorem takeoverRun_law_two_silences :
    CallLaw 1 (takeoverRun steadyOps.logged (takeoverInit ((), []) 2 1)
      [.probeSilent, .probeSilent]).ctx.2 ∧
    (takeoverRun steadyOps.logged (takeoverInit ((), []) 2 1) [.probeSilent, .probeSilent]).ctx.2 =
      [(.fence, 0), (.adopt, 0), (.preserve, 0), (.reap, 0)] :=
  ⟨(takeoverRun_law steadyOps () 2 1 (by decide) (by decide) [.probeSilent, .probeSilent]).1, rfl⟩

end Kmorph
