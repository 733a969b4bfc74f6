import Kmorph.UpgradeCore
import Mathlib.Data.List.Basic

/-!
What `kmorph upgrade` freezes it thaws. A freeze that fails leaves the filesystems as
they were, and `upgrade_run` does however it returns, beside any run of `kmorphd`; what
someone else froze is never thawed.
-/

namespace Kmorph

section Freezing

variable {freeze thaw : Path → Int} {others mine set done rest frozen : List Path}

/-- The answers of the kernel: what someone else froze is busy, what is frozen can be thawed. -/
structure KernelAnswers (freeze thaw : Path → Int) (others : List Path) : Prop where
  busy : ∀ path ∈ others, freeze path = -EBUSY
  thaws : ∀ path, freeze path = 0 → thaw path = 0

def newlyFrozen (freeze : Path → Int) (set : List Path) : List Path := set.filter (freeze · = 0)

theorem filter_others {path : Path} (fresh : path ∉ others) : others.filter (· ≠ path) = others := by
  apply List.filter_eq_self.mpr
  intro other member
  simp only [decide_eq_true_eq]
  rintro rfl
  exact fresh member

/-- Thawing paths no one else froze takes those of them that are frozen. -/
theorem thaw_foldl {l : List Path} (fresh : ∀ path ∈ l, path ∉ others)
    (thaws : ∀ path ∈ mine, thaw path = 0) :
    l.foldl (fun frozen path => if thaw path = 0 then frozen.filter (· ≠ path) else frozen) (others ++ mine) =
      others ++ mine.filter (· ∉ l) := by
  induction l generalizing mine with
  | nil => simp
  | cons path l ih =>
      obtain ⟨first, later⟩ := List.forall_mem_cons.mp fresh
      have step : (if thaw path = 0 then (others ++ mine).filter (· ≠ path) else others ++ mine) =
          others ++ mine.filter (· ≠ path) := by
        split
        · rw [List.filter_append, filter_others first]
        · rename_i fails
          rw [filter_others fun member => fails (thaws path member)]
      rw [List.foldl_cons, step, ih later fun other member => thaws other (List.mem_of_mem_filter member),
        List.filter_filter]
      congr 2
      funext other
      simp [Bool.and_comm]

theorem thawAll_others (fresh : ∀ path ∈ set, path ∉ others) (within : ∀ path ∈ mine, path ∈ set)
    (thaws : ∀ path ∈ mine, thaw path = 0) : thawAll thaw set (others ++ mine) = others := by
  rw [thawAll, thaw_foldl (fun path member => fresh path (List.mem_reverse.mp member)) thaws]
  have none : mine.filter (· ∉ set.reverse) = [] := by
    apply List.filter_eq_nil_iff.mpr
    intro path member
    simpa using within path member
  rw [none, List.append_nil]

/-- The paths `freeze_all` went over: each froze or cannot. -/
def Passed (freeze : Path → Int) (done : List Path) : Prop :=
  ∀ path ∈ done, freeze path = 0 ∨ freeze path = -EOPNOTSUPP

theorem passed_nil : Passed freeze [] := fun _ member => absurd member List.not_mem_nil

theorem Passed.fresh (passed : Passed freeze done) (answers : KernelAnswers freeze thaw others) :
    ∀ path ∈ done, path ∉ others := by
  intro path member other
  have busy := answers.busy path other
  rcases passed path member with ret | ret
  · rw [ret] at busy
    exact absurd busy (by decide)
  · rw [ret] at busy
    exact absurd busy (by decide)

theorem Passed.append {path : Path} (passed : Passed freeze done)
    (last : freeze path = 0 ∨ freeze path = -EOPNOTSUPP) : Passed freeze (done ++ [path]) := by
  intro other member
  rcases List.mem_append.mp member with earlier | new
  · exact passed other earlier
  · rwa [List.mem_singleton.mp new]

theorem newlyFrozen_append (freeze : Path → Int) (done : List Path) (path : Path) :
    newlyFrozen freeze (done ++ [path]) = newlyFrozen freeze done ++ if freeze path = 0 then [path] else [] := by
  rw [newlyFrozen, List.filter_append, List.filter_cons, List.filter_nil, newlyFrozen]
  simp only [decide_eq_true_eq]

theorem thawAll_newlyFrozen (answers : KernelAnswers freeze thaw others) (passed : Passed freeze done) :
    thawAll thaw done (others ++ newlyFrozen freeze done) = others := by
  apply thawAll_others (passed.fresh answers)
  · exact fun path member => List.mem_of_mem_filter member
  · exact fun path member => answers.thaws path (by simpa using List.of_mem_filter member)

theorem freezeLoop_spec (answers : KernelAnswers freeze thaw others) (passed : Passed freeze done)
    {result : Int × List Path}
    (loop : freezeLoop freeze thaw done rest (others ++ newlyFrozen freeze done) = result) :
    (result.1 ≠ 0 → result.2 = others) ∧
      (result.1 = 0 → Passed freeze (done ++ rest) ∧ result.2 = others ++ newlyFrozen freeze (done ++ rest)) := by
  induction rest generalizing done with
  | nil =>
      subst loop
      rw [List.append_nil]
      exact ⟨fun failed => absurd rfl failed, fun _ => ⟨passed, rfl⟩⟩
  | cons path rest ih =>
      -- Each round keeps `others` and what was newly frozen so far apart, so the thaw finds its own.
      rw [freezeLoop] at loop
      rw [List.append_cons]
      by_cases unsupported : freeze path = -EOPNOTSUPP
      · have none : freeze path ≠ 0 := by
          rw [unsupported]
          decide
        apply ih (passed.append (.inr unsupported))
        rw [newlyFrozen_append, if_neg none, List.append_nil, ← loop, if_pos unsupported]
      · by_cases froze : freeze path = 0
        · apply ih (passed.append (.inl froze))
          rw [newlyFrozen_append, if_pos froze, ← List.append_assoc, ← loop, if_neg unsupported,
            if_neg (not_not.mpr froze)]
        · rw [if_neg unsupported, if_pos froze, thawAll_newlyFrozen answers passed] at loop
          subst loop
          exact ⟨fun _ => rfl, fun accepted => absurd accepted froze⟩

theorem freezeAll_spec (answers : KernelAnswers freeze thaw others) :
    ((freezeAll freeze thaw set others).1 ≠ 0 → (freezeAll freeze thaw set others).2 = others) ∧
      ((freezeAll freeze thaw set others).1 = 0 → Passed freeze set ∧
        (freezeAll freeze thaw set others).2 = others ++ newlyFrozen freeze set) := by
  apply @freezeLoop_spec freeze thaw others [] set answers passed_nil
  rw [freezeAll, newlyFrozen, List.filter_nil, List.append_nil]

theorem Passed.newlyFrozen_eq (passed : Passed freeze set) :
    newlyFrozen freeze set = set.filter (freeze · ≠ -EOPNOTSUPP) := by
  apply List.filter_congr
  intro path member
  rcases passed path member with ret | ret
  · simp [ret, EOPNOTSUPP]
  · simp [ret, EOPNOTSUPP]

end Freezing

def frozenPaths (calls : List FreezeCall) : List Path :=
  calls.filterMap fun
    | .freeze path ret => if ret = 0 then some path else none
    | .thaw _ _ => none

def thawedPaths (calls : List FreezeCall) : List Path :=
  calls.filterMap fun
    | .freeze _ _ => none
    | .thaw path _ => some path

section Calls

variable {freeze thaw : Path → Int} {others set done rest frozen : List Path}

theorem thawAll_eq_calls (thaw : Path → Int) (set frozen : List Path) :
    thawAll thaw set frozen = (thawCalls thaw set).foldl FreezeCall.apply frozen := by
  rw [thawCalls, List.foldl_map]
  rfl

/-- The calls of `freeze_all` do what the model of it does. -/
theorem freezeLoop_eq_calls (freeze thaw : Path → Int) (done rest frozen : List Path) :
    freezeLoop freeze thaw done rest frozen =
      ((freezeCalls freeze thaw done rest).1,
        (freezeCalls freeze thaw done rest).2.foldl FreezeCall.apply frozen) := by
  induction rest generalizing done frozen with
  | nil => rfl
  | cons path rest ih =>
      rw [freezeLoop, freezeCalls]
      by_cases unsupported : freeze path = -EOPNOTSUPP
      · have none : freeze path ≠ 0 := by
          rw [unsupported]
          decide
        simp only [if_pos unsupported, if_pos (Or.inl unsupported), ih, List.foldl_cons, FreezeCall.apply,
          if_neg none]
      · by_cases froze : freeze path = 0
        · simp only [if_neg unsupported, if_neg (not_not.mpr froze), if_pos (Or.inr froze), ih, List.foldl_cons,
            FreezeCall.apply, if_pos froze]
        · simp only [if_neg unsupported, if_pos froze, if_neg (not_or.mpr ⟨unsupported, froze⟩), List.foldl_cons,
            FreezeCall.apply, if_neg froze, thawAll_eq_calls]

theorem frozenPaths_thawCalls (thaw : Path → Int) (set : List Path) : frozenPaths (thawCalls thaw set) = [] := by
  rw [frozenPaths, thawCalls, List.filterMap_map]
  exact List.filterMap_eq_nil_iff.mpr fun _ _ => rfl

theorem thawedPaths_thawCalls (thaw : Path → Int) (set : List Path) :
    thawedPaths (thawCalls thaw set) = set.reverse := by
  rw [thawedPaths, thawCalls, List.filterMap_map]
  exact List.filterMap_some

theorem frozenPaths_freeze (path : Path) (ret : Int) (calls : List FreezeCall) :
    frozenPaths (.freeze path ret :: calls) = (if ret = 0 then [path] else []) ++ frozenPaths calls := by
  rw [frozenPaths, List.filterMap_cons]
  by_cases froze : ret = 0
  · simp only [if_pos froze]
    rfl
  · simp only [if_neg froze]
    rfl

theorem newlyFrozen_cons (freeze : Path → Int) (path : Path) (rest : List Path) :
    newlyFrozen freeze (path :: rest) = (if freeze path = 0 then [path] else []) ++ newlyFrozen freeze rest := by
  rw [newlyFrozen, List.filter_cons]
  by_cases froze : freeze path = 0
  · rw [if_pos (decide_eq_true froze), if_pos froze]
    rfl
  · rw [if_neg (by simpa using froze), if_neg froze]
    rfl

/-- What `freeze_all` freezes, and thaws again if it fails. -/
theorem freezeCalls_spec (passed : Passed freeze done) {result : Int × List FreezeCall}
    (calls : freezeCalls freeze thaw done rest = result) :
    (result.1 = 0 → Passed freeze (done ++ rest) ∧ frozenPaths result.2 = newlyFrozen freeze rest ∧
      thawedPaths result.2 = []) ∧
    (result.1 ≠ 0 → ∃ more, Passed freeze (done ++ more) ∧ frozenPaths result.2 = newlyFrozen freeze more ∧
      thawedPaths result.2 = (done ++ more).reverse) := by
  induction rest generalizing done result with
  | nil =>
      subst calls
      rw [List.append_nil]
      exact ⟨fun _ => ⟨passed, rfl, rfl⟩, fun failed => absurd rfl failed⟩
  | cons path rest ih =>
      rw [freezeCalls] at calls
      by_cases goesOn : freeze path = -EOPNOTSUPP ∨ freeze path = 0
      · simp only [if_pos goesOn] at calls
        obtain ⟨accepted, failed⟩ := ih (passed.append goesOn.symm) rfl
        subst calls
        simp only [frozenPaths_freeze]
        rw [List.append_cons done path rest]
        constructor
        · intro ret
          obtain ⟨all, froze, thawed⟩ := accepted ret
          exact ⟨all, by rw [froze, newlyFrozen_cons], thawed⟩
        · intro ret
          obtain ⟨more, all, froze, thawed⟩ := failed ret
          refine ⟨path :: more, by rwa [List.append_cons], by rw [froze, newlyFrozen_cons], ?_⟩
          rw [List.append_cons done path more]
          exact thawed
      · simp only [if_neg goesOn] at calls
        subst calls
        obtain ⟨-, fails⟩ := not_or.mp goesOn
        refine ⟨fun ret => absurd ret fails, fun _ => ⟨[], ?_, ?_, ?_⟩⟩
        · rwa [List.append_nil]
        · rw [frozenPaths_freeze, if_neg fails, frozenPaths_thawCalls]
          rfl
        · rw [List.append_nil]
          exact thawedPaths_thawCalls thaw done

theorem newlyFrozen_reverse (freeze : Path → Int) (set : List Path) :
    set.reverse.filter (· ∈ newlyFrozen freeze set) = (newlyFrozen freeze set).reverse := by
  rw [List.filter_reverse]
  congr 1
  apply List.filter_congr
  intro path member
  simp [newlyFrozen, member]

/-- Calls that undo themselves and touch nothing of someone else's. -/
structure Balanced (others : List Path) (calls : List FreezeCall) : Prop where
  restored : calls.foldl FreezeCall.apply others = others
  reversed : (thawedPaths calls).filter (· ∈ frozenPaths calls) = (frozenPaths calls).reverse
  fresh : ∀ path ∈ thawedPaths calls, path ∉ others

theorem balanced_nil : Balanced others [] := ⟨rfl, rfl, fun _ member => absurd member List.not_mem_nil⟩

theorem freezeCalls_failed (answers : KernelAnswers freeze thaw others)
    (failed : (freezeCalls freeze thaw [] set).1 ≠ 0) : Balanced others (freezeCalls freeze thaw [] set).2 := by
  have loop := freezeLoop_eq_calls freeze thaw [] set others
  have spec := (@freezeAll_spec freeze thaw others set answers).1
  rw [freezeAll, loop] at spec
  obtain ⟨more, passed, froze, thawed⟩ := (freezeCalls_spec passed_nil rfl).2 failed
  rw [List.nil_append] at passed thawed
  refine ⟨spec failed, ?_, ?_⟩
  · rw [froze, thawed, newlyFrozen_reverse]
  · intro path member
    rw [thawed] at member
    exact passed.fresh answers path (List.mem_reverse.mp member)

theorem freezeCalls_thawed (answers : KernelAnswers freeze thaw others)
    (accepted : (freezeCalls freeze thaw [] set).1 = 0) :
    Balanced others ((freezeCalls freeze thaw [] set).2 ++ thawCalls thaw set) := by
  have loop := freezeLoop_eq_calls freeze thaw [] set others
  have spec := (@freezeAll_spec freeze thaw others set answers).2
  rw [freezeAll, loop] at spec
  obtain ⟨passed, frozen⟩ := spec accepted
  obtain ⟨-, froze, thawed⟩ := (freezeCalls_spec passed_nil rfl).1 accepted
  have frozenAll : frozenPaths ((freezeCalls freeze thaw [] set).2 ++ thawCalls thaw set) =
      newlyFrozen freeze set := by
    rw [frozenPaths, List.filterMap_append, ← frozenPaths, ← frozenPaths, froze, frozenPaths_thawCalls,
      List.append_nil]
  have thawedAll : thawedPaths ((freezeCalls freeze thaw [] set).2 ++ thawCalls thaw set) = set.reverse := by
    rw [thawedPaths, List.filterMap_append, ← thawedPaths, ← thawedPaths, thawed, thawedPaths_thawCalls,
      List.nil_append]
  refine ⟨?_, ?_, ?_⟩
  · rw [List.foldl_append, ← thawAll_eq_calls]
    show thawAll thaw set ((freezeCalls freeze thaw [] set).2.foldl FreezeCall.apply others) = others
    rw [show (freezeCalls freeze thaw [] set).2.foldl FreezeCall.apply others = _ from frozen,
      thawAll_newlyFrozen answers passed]
  · rw [frozenAll, thawedAll, newlyFrozen_reverse]
  · intro path member
    rw [thawedAll] at member
    exact passed.fresh answers path (List.mem_reverse.mp member)

theorem freezeFilesystems_balanced {a : UpgradeAnswers} (answers : KernelAnswers a.freeze a.thaw others)
    {result : Int × List Path × List FreezeCall} (ran : freezeFilesystems a = result) :
    (result.1 ≠ 0 → Balanced others result.2.2) ∧
      (result.1 = 0 → Balanced others (result.2.2 ++ thawCalls a.thaw result.2.1)) := by
  simp only [freezeFilesystems] at ran
  split at ran
  · subst ran
    exact ⟨fun _ => balanced_nil, fun _ => balanced_nil⟩
  · split at ran
    · subst ran
      exact ⟨fun _ => balanced_nil, fun _ => balanced_nil⟩
    · split at ran
      · rename_i failed
        subst ran
        exact ⟨fun _ => freezeCalls_failed answers failed, fun accepted => absurd accepted failed⟩
      · rename_i accepted
        subst ran
        exact ⟨fun failed => absurd rfl failed, fun _ => freezeCalls_thawed answers (not_not.mp accepted)⟩

theorem upgradeCalls_balanced {a : UpgradeAnswers} (answers : KernelAnswers a.freeze a.thaw others) :
    Balanced others (upgradeCalls a).2 := by
  obtain ⟨failed, accepted⟩ := freezeFilesystems_balanced answers rfl
  simp only [upgradeCalls]
  split
  · exact balanced_nil
  split
  · exact balanced_nil
  split
  · exact balanced_nil
  split
  · rename_i ret
    exact failed ret
  · rename_i ret
    exact accepted (not_not.mp ret)

end Calls

section Machine

variable {σ : Type} {ops : DaemonOps σ} {d : Daemon σ} {others : List Path} {s : Upgrade σ}

/-- The answers a step may carry where the state is `s`. -/
def Truthful (s : Upgrade σ) : UpgradeStep → Prop
  | .client (.prepare p) => KernelAnswers p.freeze p.thaw s.frozen
  | .client (.thaw thaw) => ∀ path ∈ s.set, path ∈ s.frozen → thaw path = 0
  | _ => True

/-- The states of an upgrade beside `kmorphd` where others have frozen `others`. -/
inductive Reaches (ops : DaemonOps σ) (d : Daemon σ) (others : List Path) : Upgrade σ → Prop
  | start : Reaches ops d others { upgradeInit d with frozen := others }
  | step {s : Upgrade σ} (step : UpgradeStep) :
      Reaches ops d others s → Truthful s step → Reaches ops d others (upgradeStep ops s step)

def Client.holding : Client → Bool
  | .starting | .returned _ => false
  | _ => true

/-- Before the freeze and after the thaw nothing of this upgrade is frozen; between them it is
only what `thaw_all` will go over. -/
def Restores (others : List Path) (s : Upgrade σ) : Prop :=
  if s.client.holding then
    (∀ path ∈ s.set, path ∉ others) ∧ ∃ mine, s.frozen = others ++ mine ∧ ∀ path ∈ mine, path ∈ s.set
  else s.frozen = others

structure SameFrozen (s t : Upgrade σ) : Prop where
  holding : t.client.holding = s.client.holding
  set : t.set = s.set
  frozen : t.frozen = s.frozen

theorem Restores.sameFrozen {t : Upgrade σ} (restores : Restores others s) (same : SameFrozen s t) :
    Restores others t := by
  rw [Restores, same.holding, same.set, same.frozen]
  exact restores

theorem receive_sameFrozen {n : ℕ} {reply : String} (holding : s.client.holding = true) :
    SameFrozen s (receive n reply s) := by
  simp only [receive]
  split
  · exact ⟨holding.symm, rfl, rfl⟩
  split
  · exact ⟨holding.symm, rfl, rfl⟩
  · exact ⟨holding.symm, rfl, rfl⟩

theorem clientStep_sameFrozen {step : ClientStep} (frozen : s.client ≠ .starting)
    (sealed : ∀ ret, s.client ≠ .thawing ret) : SameFrozen s (clientStep s step) := by
  simp only [clientStep]
  split
  · rename_i client
    exact absurd client frozen
  · rename_i client
    refine ⟨?_, rfl, rfl⟩
    rw [client]
    split
    · rfl
    · rfl
  · rename_i client
    split
    · exact ⟨by rw [client]; rfl, rfl, rfl⟩
    · exact ⟨by rw [client]; rfl, rfl, rfl⟩
  · rename_i client
    split
    · exact receive_sameFrozen (by rw [client]; rfl)
    · exact ⟨rfl, rfl, rfl⟩
  · rename_i client
    exact ⟨by rw [client]; rfl, rfl, rfl⟩
  · rename_i client
    exact ⟨by rw [client]; rfl, rfl, rfl⟩
  · rename_i client
    exact absurd client (sealed _)
  · exact ⟨rfl, rfl, rfl⟩

theorem restores_prepare {p : Preparation} (restores : s.frozen = others)
    (answers : KernelAnswers p.freeze p.thaw s.frozen) : Restores others (prepare p s) := by
  subst restores
  simp only [prepare]
  split
  · rfl
  split
  · rfl
  split
  · rfl
  cases p.collected with
  | error ret => rfl
  | ok set =>
      obtain ⟨failed, accepted⟩ := @freezeAll_spec p.freeze p.thaw s.frozen set answers
      by_cases ret : (freezeAll p.freeze p.thaw set s.frozen).1 = 0
      · obtain ⟨passed, frozen⟩ := accepted ret
        simp only [ret, ne_eq, not_true_eq_false, if_false]
        exact ⟨passed.fresh answers, newlyFrozen p.freeze set, frozen,
          fun path member => List.mem_of_mem_filter member⟩
      · simp only [ne_eq, ret, not_false_eq_true, if_true]
        exact failed ret

theorem restores_thaw {thaw : Path → Int} {ret : Int} (restores : Restores others s)
    (holding : s.client.holding = true) (thaws : ∀ path ∈ s.set, path ∈ s.frozen → thaw path = 0) :
    Restores others { s with client := .returned ret, frozen := thawAll thaw s.set s.frozen } := by
  rw [Restores, if_pos holding] at restores
  obtain ⟨fresh, mine, frozen, within⟩ := restores
  show thawAll thaw s.set s.frozen = others
  rw [frozen]
  apply thawAll_others fresh within
  intro path member
  apply thaws path (within path member)
  rw [frozen]
  exact List.mem_append_right others member

theorem restores_clientStep {step : ClientStep} (restores : Restores others s)
    (truthful : Truthful s (.client step)) : Restores others (clientStep s step) := by
  cases client : s.client with
  | starting =>
      cases step with
      | prepare p =>
          rw [Restores, client] at restores
          simp only [clientStep, client]
          exact restores_prepare restores truthful
      | _ =>
          simp only [clientStep, client]
          exact restores
  | thawing ret =>
      cases step with
      | thaw thaw =>
          simp only [clientStep, client]
          exact restores_thaw restores (by rw [client]; rfl) truthful
      | _ =>
          simp only [clientStep, client]
          exact restores
  | _ => exact restores.sameFrozen (clientStep_sameFrozen (by simp [client]) (by simp [client]))

theorem restores_step {step : UpgradeStep} (restores : Restores others s) (truthful : Truthful s step) :
    Restores others (upgradeStep ops s step) := by
  cases step with
  | client step =>
      simp only [upgradeStep]
      split
      · exact restores
      · exact restores_clientStep restores truthful
  | serve input now =>
      simp only [upgradeStep]
      split
      · split
        · exact restores.sameFrozen ⟨rfl, rfl, rfl⟩
        · exact restores
      · exact restores
      · exact restores
  | takeHandover =>
      simp only [upgradeStep]
      split
      · exact restores.sameFrozen ⟨rfl, rfl, rfl⟩
      · exact restores
  | daemon ev =>
      simp only [upgradeStep]
      split
      · exact restores
      · exact restores.sameFrozen ⟨rfl, rfl, rfl⟩

theorem Reaches.restores (reaches : Reaches ops d others s) : Restores others s := by
  induction reaches with
  | start => rfl
  | step step _ truthful ih => exact restores_step ih truthful

end Machine

/-- A freeze that fails leaves what is frozen as it was and one that succeeds has frozen what can be;
an upgrade thaws what it froze, last first, and nothing else, and leaves what is frozen as it was
whenever it returns. -/
theorem freeze_thaw_exact :
    (∀ (freeze thaw : Path → Int) (others set : List Path), KernelAnswers freeze thaw others →
      ((freezeAll freeze thaw set others).1 ≠ 0 → (freezeAll freeze thaw set others).2 = others) ∧
        ((freezeAll freeze thaw set others).1 = 0 →
          (freezeAll freeze thaw set others).2 = others ++ set.filter (freeze · ≠ -EOPNOTSUPP))) ∧
    (∀ (a : UpgradeAnswers) (others : List Path), KernelAnswers a.freeze a.thaw others →
      Balanced others (upgradeCalls a).2) ∧
    ∀ (σ : Type) (ops : DaemonOps σ) (d : Daemon σ) (others : List Path) (s : Upgrade σ) (ret : Int),
      Reaches ops d others s → s.client = .returned ret → s.frozen = others := by
  refine ⟨?_, fun a others => upgradeCalls_balanced, ?_⟩
  · intro freeze thaw others set answers
    obtain ⟨failed, accepted⟩ := @freezeAll_spec freeze thaw others set answers
    refine ⟨failed, fun ret => ?_⟩
    obtain ⟨passed, frozen⟩ := accepted ret
    rw [frozen, passed.newlyFrozen_eq]
  · intro σ ops d others s ret reaches returned
    have restores := reaches.restores
    rw [Restores, returned] at restores
    exact restores

/-- Another has frozen `/srv`, and `/proc` cannot be frozen. -/
def sampleFreeze (path : Path) : Int :=
  if path = "/srv".toList then -EBUSY else if path = "/proc".toList then -EOPNOTSUPP else 0

theorem sampleFreeze_answers : KernelAnswers sampleFreeze (fun _ => 0) ["/srv".toList] := by
  refine ⟨fun path member => ?_, fun _ _ => rfl⟩
  rw [List.mem_singleton.mp member]
  decide

def sampleMounts : UpgradeAnswers where
  instanceId := 0
  otherRunning := 0
  mountinfo := .ok "22 1 8:1 / / rw - ext4 /dev/sda1 rw\n23 22 8:2 / /srv rw - ext4 /dev/sda2 rw\n".toList
  granted := fun _ => true
  freeze := sampleFreeze
  thaw := fun _ => 0
  request := .error (-ENOENT)

def quietDaemon : DaemonOps Unit where
  fence _ := (0, ())
  adopt _ := (0, ())
  preserve _ := (0, ())
  reap _ := (0, ())
  onState _ _ _ := ()
  dropDump := id
  takeNetwork _ _ := none

theorem freeze_thaw_exact_refused :
    (freezeAll sampleFreeze (fun _ => 0) ["/".toList, "/proc".toList, "/srv".toList] ["/srv".toList]).2 =
        ["/srv".toList] ∧
      Balanced ["/srv".toList] (upgradeCalls sampleMounts).2 ∧
      ∃ s, Reaches quietDaemon (daemonInit () 3 1) ["/srv".toList] s ∧ s.client = .returned (-ENOENT) ∧
        s.froze = ["/srv".toList, "/".toList] ∧ s.frozen = ["/srv".toList] := by
  obtain ⟨freezes, balanced, returns⟩ := freeze_thaw_exact
  refine ⟨(freezes _ _ _ _ sampleFreeze_answers).1 (by decide), balanced sampleMounts _ sampleFreeze_answers, ?_⟩
  -- Nobody takes the connection, and what was frozen is thawed again.
  have prepared : Reaches quietDaemon (daemonInit () 3 1) ["/srv".toList] _ :=
    Reaches.start.step (.client (.prepare ⟨0, 0, .ok ["/".toList], sampleFreeze, fun _ => 0⟩)) sampleFreeze_answers
  have refused := prepared.step (.client (.connect (-ENOENT))) trivial
  have thawed := refused.step (.client (.thaw fun _ => 0)) fun _ _ _ => rfl
  exact ⟨_, thawed, rfl, rfl, returns _ _ _ _ _ (-ENOENT) thawed rfl⟩

end Kmorph
