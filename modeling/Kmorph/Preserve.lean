import Kmorph.Devices
import Kmorph.Histories
import Kmorph.Plan
import Kmorph.Takeover

/-!
The predecessor's memory in a takeover with a dump configured: over every run of the
takeover machine on the operations, what is added to this kernel is dumped first.
-/

namespace Kmorph

open Histories

def Overlay.memoryAdd : Overlay → List Range
  | .adopt _ _ memory => memory
  | .deviceAdd _ _ | .iommuAdd _ _ => []

def Effect.memoryAdd : Effect → List Range
  | .applyOverlay overlay _ => overlay.memoryAdd
  | _ => []

/-- Memory is added only after a dump that covers it, and never after one that failed. -/
def DumpFirst (before : List Effect) (entry : Effect) : Prop :=
  entry.memoryAdd ≠ [] →
    (∃ ranges, .dumpVmcore ranges 0 ∈ before ∧ addresses entry.memoryAdd ⊆ addresses ranges) ∧
      ∀ ranges ret, .dumpVmcore ranges ret ∈ before → ret = 0

def Effect.Quiet (e : Effect) : Prop :=
  e.memoryAdd = [] ∧ ∀ ranges ret, e ≠ .dumpVmcore ranges ret

structure Grows (o after : Ops) : Prop where
  env : after.env = o.env
  host : after.host = o.host
  log : ∃ new, after.log = o.log ++ new ∧ ∀ e ∈ new, e.Quiet

theorem Grows.of_same {o after : Ops} (env : after.env = o.env) (host : after.host = o.host)
    (log : after.log = o.log) : Grows o after :=
  ⟨env, host, [], by simp [log], by simp⟩

theorem Grows.trans {o middle after : Ops} (first : Grows o middle) (last : Grows middle after) :
    Grows o after := by
  obtain ⟨new, newLog, newQuiet⟩ := first.log
  obtain ⟨more, moreLog, moreQuiet⟩ := last.log
  refine ⟨last.env.trans first.env, last.host.trans first.host, new ++ more, ?_, ?_⟩
  · rw [moreLog, newLog, List.append_assoc]
  · intro e member
    exact (List.mem_append.mp member).elim (newQuiet e) (moreQuiet e)

theorem Effect.quiet_of_phase {e : Effect} (device : e.phase ≤ 5) : e.Quiet := by
  cases e with
  | applyOverlay overlay ret =>
      cases overlay with
      | adopt name cpus memory => simp [Effect.phase] at device
      | _ => simp [Quiet, Effect.memoryAdd, Overlay.memoryAdd]
  | dumpVmcore ranges ret => simp [Effect.phase] at device
  | _ => simp [Quiet, Effect.memoryAdd]

theorem tryDevices_grows (a : DevicesAnswers) (o : Ops) : Grows o (tryDevices a o) := by
  unfold tryDevices
  split
  · exact .of_same rfl rfl rfl
  · refine ⟨rfl, rfl, _, List.append_assoc _ _ _, ?_⟩
    intro e member
    rcases List.mem_append.mp member with device | restored
    · exact Effect.quiet_of_phase (opsAdoptDevices_phase device)
    · split at restored
      · obtain rfl := List.mem_singleton.mp restored
        simp [Effect.Quiet, Effect.memoryAdd]
      · simp at restored

theorem PoolKept.grows {a : PlanAnswers} {granule : UInt64} {o after : Ops} {ret : Int}
    (kept : PoolKept a granule o ret after) : Grows o after := by
  have quiet (claim : Range) (code : Int) : (Effect.poolClaimWrite claim code).Quiet := by
    simp [Effect.Quiet, Effect.memoryAdd]
  cases kept with
  | nothing => exact .of_same rfl rfl rfl
  | unrecorded claim failed => exact ⟨rfl, rfl, _, rfl, by simpa using quiet _ _⟩
  | recorded largest member fits written => exact ⟨rfl, rfl, _, rfl, by simpa using quiet _ _⟩

theorem planAdoption_grows (a : PlanAnswers) (o : Ops) : Grows o (planAdoption a o).2 := by
  rcases planAdoption_cases a o with ⟨-, takeable, adoptable, planned⟩ | ⟨-, -, reached⟩
  · rw [planned]
    exact .of_same rfl rfl rfl
  · rw [reached]
    have replanned : Grows o { o with takeable := (a.taken o).2, adoptable := (a.aligned o).2 } :=
      .of_same rfl rfl rfl
    exact replanned.trans (keepForPool_cases _ _ _).grows

theorem planAdoption_preserved (a : PlanAnswers) (o : Ops) :
    (planAdoption a o).2.preserved = o.preserved := by
  rcases planAdoption_cases a o with ⟨-, takeable, adoptable, planned⟩ | ⟨-, -, reached⟩
  · rw [planned]
  · obtain ⟨poolClaim, claimFile, adoptable, log, frame⟩ := (keepForPool_cases a a.granule
      { o with takeable := (a.taken o).2, adoptable := (a.aligned o).2 }).frame
    rw [reached, frame]

/-- The memory an entry of the log added to this kernel. -/
def Effect.added : Effect → List Range
  | .applyOverlay overlay ret => if ret = 0 then overlay.memoryAdd else []
  | _ => []

theorem Effect.Quiet.added {e : Effect} (quiet : e.Quiet) : e.added = [] := by
  cases e with
  | applyOverlay overlay ret =>
      simp only [Effect.added]
      split
      · exact quiet.1
      · rfl
  | _ => rfl

theorem applyAdopt_cases (a : OverlayAnswer) (cpus : List UInt64) (memory : Rangeset) (o : Ops) :
    ∃ new, (applyAdopt a cpus memory o).2 = o.note new ∧
      ∀ e ∈ new, e.memoryAdd = memory.r ∧ (∃ overlay ret, e = .applyOverlay overlay ret) ∧
        (e.added = [] ∨ (applyAdopt a cpus memory o).1 = 0 ∧ e.added = memory.r) := by
  simp only [applyAdopt]
  split
  · exact ⟨[], by simp [Ops.note], by simp⟩
  · refine ⟨_, rfl, ?_⟩
    intro e member
    simp only [applyOverlay] at member ⊢
    split at member
    · simp at member
    · rename_i built
      obtain rfl := List.mem_singleton.mp member
      rw [if_neg built]
      refine ⟨rfl, ⟨_, _, rfl⟩, ?_⟩
      by_cases applied : a.applied = 0
      · exact .inr ⟨applied, if_pos applied⟩
      · exact .inl (if_neg applied)

theorem applyAdopt_quiet (a : OverlayAnswer) (cpus : List UInt64) (o : Ops) :
    ∃ new, (applyAdopt a cpus rangesetInit o).2 = o.note new ∧ ∀ e ∈ new, e.Quiet := by
  obtain ⟨new, after, overlays⟩ := applyAdopt_cases a cpus rangesetInit o
  refine ⟨new, after, ?_⟩
  intro e member
  obtain ⟨none, ⟨overlay, ret, rfl⟩, -⟩ := overlays e member
  exact ⟨none, by simp⟩

/-- What an attempt to adopt leaves, from what its planning leaves. -/
structure Adopted (o plan after : Ops) (planned ret : Int) : Prop where
  env : after.env = o.env
  host : after.host = o.host
  file : after.claimFile = plan.claimFile
  takeable : after.takeable = plan.takeable
  log : ∃ new, after.log = o.log ++ new ∧
    ∀ e ∈ new, e.Quiet ∨ o.env.dumpPath.isSome = false ∧
      (e.added = [] ∨ ret = 0 ∧ e.added = plan.adoptable.r)
  planned : ret = 0 → planned = 0
  unpreserved : o.env.dumpPath.isSome = false → after.preserved = o.preserved
  preserved : ret = 0 → o.env.dumpPath.isSome = true → Normal plan.adoptable.r →
    after.preserved.r = plan.adoptable.r

theorem opsAdopt_adopted (a : AdoptAnswers) (o : Ops) :
    Adopted o (planAdoption a.plan (tryDevices a.devices o)).2 (opsAdopt a o).2
      (planAdoption a.plan (tryDevices a.devices o)).1 (opsAdopt a o).1 := by
  have grows := (tryDevices_grows a.devices o).trans (planAdoption_grows a.plan _)
  have preserved : (planAdoption a.plan (tryDevices a.devices o)).2.preserved = o.preserved := by
    rw [planAdoption_preserved]
    unfold tryDevices
    split <;> rfl
  simp only [opsAdopt]
  generalize planAdoption a.plan (tryDevices a.devices o) = plan at grows preserved ⊢
  obtain ⟨env, host, new, log, quiet⟩ := grows
  split
  · rename_i failed
    exact ⟨env, host, rfl, rfl, ⟨new, log, fun e member => .inl (quiet e member)⟩,
      fun done => absurd done failed, fun _ => preserved, fun done => absurd done failed⟩
  · rename_i planned
    cases dump : o.env.dumpPath.isSome with
    | true =>
        rw [if_pos (env ▸ dump)]
        split
        · rename_i failed
          exact ⟨env, host, rfl, rfl, ⟨new, log, fun e member => .inl (quiet e member)⟩,
            fun done => absurd done failed, by simp [dump], fun done => absurd done failed⟩
        · rename_i copied
          obtain ⟨overlays, after, quietly⟩ := applyAdopt_quiet a.overlay plan.2.takeable.cpus
            { plan.2 with preserved := (rangesetCopy a.copy plan.2.preserved plan.2.adoptable).2 }
          rw [after]
          refine ⟨env, host, rfl, rfl, ⟨new ++ overlays, by simp [Ops.note, log], ?_⟩,
            fun _ => not_not.mp planned, by simp [dump],
            fun _ _ normal => rangesetCopy_correct normal (not_not.mp copied)⟩
          intro e member
          exact .inl ((List.mem_append.mp member).elim (quiet e) (quietly e))
    | false =>
        rw [if_neg (by simp [env, dump])]
        obtain ⟨overlays, after, added⟩ := applyAdopt_cases a.overlay plan.2.takeable.cpus
          plan.2.adoptable plan.2
        rw [after]
        refine ⟨env, host, rfl, rfl, ⟨new ++ overlays, by simp [Ops.note, log], ?_⟩,
          fun _ => not_not.mp planned, fun _ => preserved, by simp [dump]⟩
        intro e member
        rcases List.mem_append.mp member with old | last
        · exact .inl (quiet e old)
        · exact .inr ⟨dump, (added e last).2.2⟩

theorem opsAdopt_grows (a : AdoptAnswers) {o : Ops} (dump : o.env.dumpPath.isSome = true) :
    Grows o (opsAdopt a o).2 := by
  have adopted := opsAdopt_adopted a o
  obtain ⟨new, log, entries⟩ := adopted.log
  refine ⟨adopted.env, adopted.host, new, log, ?_⟩
  intro e member
  refine (entries e member).resolve_right ?_
  rintro ⟨none, -⟩
  simp [dump] at none

theorem opsFence_grows (ret : Int) (o : Ops) : Grows o (opsFence ret o).2 :=
  ⟨rfl, rfl, [.fence ret], rfl, by simp [Effect.Quiet, Effect.memoryAdd]⟩

/-- A takeover with a dump path before its dump. -/
structure Undumped (o : Ops) : Prop where
  configured : o.env.dumpPath.isSome = true
  quiet : ∀ e ∈ o.log, e.Quiet

theorem Undumped.grows {o after : Ops} (undumped : Undumped o) (grows : Grows o after) :
    Undumped after := by
  obtain ⟨new, log, quiet⟩ := grows.log
  refine ⟨grows.env ▸ undumped.configured, ?_⟩
  intro e member
  rcases List.mem_append.mp (log ▸ member) with old | fresh
  · exact undumped.quiet e old
  · exact quiet e fresh

theorem Undumped.not_dumped {o : Ops} (undumped : Undumped o) (ranges : List Range) (ret : Int) :
    .dumpVmcore ranges ret ∉ o.log :=
  fun member => (undumped.quiet _ member).2 ranges ret rfl

theorem Undumped.dumpFirst {o : Ops} (undumped : Undumped o) : Always DumpFirst o.log := by
  intro before entry found adds
  have member : entry ∈ o.log := found.subset (by simp)
  exact absurd (undumped.quiet entry member).1 adds

/-- Whatever granule a later attempt plans with, it fits behind the RAM. -/
def Roomy (ctx : OpsCtx) : Prop :=
  ∀ n, RoomFor ctx.ops.host (ctx.answers n).adopt.plan.granule

theorem Roomy.next {ctx : OpsCtx} (roomy : Roomy ctx) {after : Ops} (host : after.host = ctx.ops.host) :
    Roomy ⟨after, fun calls => ctx.answers (calls + 1)⟩ := by
  intro n
  rw [host]
  exact roomy (n + 1)

theorem opsAdopt_inside {a : AdoptAnswers} {o : Ops} (dump : o.env.dumpPath.isSome = true)
    (room : RoomFor o.host a.plan.granule) (done : (opsAdopt a o).1 = 0) :
    addresses (opsAdopt a o).2.preserved.r ⊆ addresses (opsAdopt a o).2.takeable.memory.r := by
  have adopted := opsAdopt_adopted a o
  have planned := planAdoption_planned ((tryDevices_grows a.devices o).host ▸ room)
    (adopted.planned done)
  rw [adopted.preserved done dump planned.normal, adopted.takeable]
  refine subset_trans ?_ (SpanSets.wholeBlocks_subset a.plan.granule.toNat _)
  rw [← planned.whole]
  exact Set.subset_union_left

structure Reapable (o : Ops) : Prop where
  dumpFirst : Always DumpFirst o.log
  dumped : o.preserved.r ≠ [] → .dumpVmcore o.takeable.memory.r 0 ∈ o.log
  notFailed : ∀ ranges ret, .dumpVmcore ranges ret ∈ o.log → ret = 0
  inside : addresses o.preserved.r ⊆ addresses o.takeable.memory.r

theorem Reapable.reap {o : Ops} (reapable : Reapable o) (a : OverlayAnswer) :
    Always DumpFirst (opsReap a o).2.log := by
  simp only [opsReap]
  split
  · exact reapable.dumpFirst
  · rename_i some
    obtain ⟨new, after, overlays⟩ := applyAdopt_cases a [] o.preserved o
    have always : Always DumpFirst (o.log ++ new) := by
      refine reapable.dumpFirst.append ?_
      intro before entry found adds
      have sameDumps (ranges : List Range) (code : Int)
          (member : .dumpVmcore ranges code ∈ o.log ++ before) : .dumpVmcore ranges code ∈ o.log := by
        rcases List.mem_append.mp member with old | fresh
        · exact old
        · obtain ⟨-, ⟨overlay, other, impossible⟩, -⟩ :=
            overlays _ (found.subset (List.mem_append_left _ fresh))
          simp at impossible
      rw [(overlays entry (found.subset (by simp))).1]
      refine ⟨⟨_, List.mem_append_left _ (reapable.dumped some), reapable.inside⟩, ?_⟩
      intro ranges other member
      exact reapable.notFailed ranges other (sameDumps ranges other member)
    rw [after]
    split
    · exact always
    · exact always

theorem opsPreserve_eq {o : Ops} (dumped : Int) (dump : o.env.dumpPath.isSome = true) :
    opsPreserve dumped o =
      if o.preserved.r = [] then (0, o)
      else (dumped, o.note [.dumpVmcore o.takeable.memory.r dumped]) := by
  simp [opsPreserve, Option.isSome_iff_ne_none.mp dump]

section Stages

variable {o : Ops} {dumped : Int}

theorem Undumped.preserve (undumped : Undumped o) :
    Always DumpFirst (opsPreserve dumped o).2.log := by
  rw [opsPreserve_eq _ undumped.configured]
  split
  · exact undumped.dumpFirst
  · refine undumped.dumpFirst.append_free ?_
    intro entry member before adds
    obtain rfl := List.mem_singleton.mp member
    exact absurd rfl adds

theorem Undumped.preserve_succeeds (undumped : Undumped o)
    (inside : addresses o.preserved.r ⊆ addresses o.takeable.memory.r)
    (done : (opsPreserve dumped o).1 = 0) : Reapable (opsPreserve dumped o).2 := by
  have always : Always DumpFirst (opsPreserve dumped o).2.log := undumped.preserve
  rw [opsPreserve_eq _ undumped.configured] at done always ⊢
  split at done
  · rename_i none
    rw [if_pos none] at always ⊢
    exact ⟨always, fun some => absurd none some,
      fun ranges ret found => absurd found (undumped.not_dumped ranges ret), inside⟩
  · rename_i some
    rw [if_neg some] at always ⊢
    obtain rfl : dumped = 0 := done
    refine ⟨always, fun _ => List.mem_append_right _ List.mem_cons_self, ?_, inside⟩
    intro ranges ret found
    rcases List.mem_append.mp found with old | last
    · exact absurd old (undumped.not_dumped ranges ret)
    · exact (Effect.dumpVmcore.inj (List.mem_singleton.mp last)).2

end Stages

def dumpStages (retries : UInt32) : Stages opsTakeoverBase.logged retries where
  watching ctx := Undumped ctx.1.ops ∧ Roomy ctx.1
  failed _ ctx := Undumped ctx.1.ops ∧ Roomy ctx.1
  fenced ctx := Undumped ctx.1.ops ∧ Roomy ctx.1
  adopted ctx := Undumped ctx.1.ops ∧
    addresses ctx.1.ops.preserved.r ⊆ addresses ctx.1.ops.takeable.memory.r
  preserved ctx := Reapable ctx.1.ops
  takenOver ctx := Always DumpFirst ctx.1.ops.log
  watching_onState _ _ _ held := held
  failed_onState _ _ _ _ held := held
  fenced_onState _ _ _ held := held
  takenOver_onState _ _ _ held := held
  fence_fails attempts ctx ready _ := by
    obtain ⟨undumped, roomy⟩ : Undumped ctx.1.ops ∧ Roomy ctx.1 := ready.elim And.right And.right
    exact ⟨undumped.grows (opsFence_grows _ _), roomy.next rfl⟩
  fence_succeeds attempts ctx ready _ := by
    obtain ⟨undumped, roomy⟩ : Undumped ctx.1.ops ∧ Roomy ctx.1 := ready.elim And.right And.right
    exact ⟨undumped.grows (opsFence_grows _ _), roomy.next rfl⟩
  adopt_fails ctx held _ := by
    obtain ⟨undumped, roomy⟩ := held
    have grows := opsAdopt_grows (ctx.1.answers 0).adopt undumped.configured
    exact ⟨undumped.grows grows, roomy.next grows.host⟩
  adopt_succeeds ctx held done := by
    obtain ⟨undumped, roomy⟩ := held
    exact ⟨undumped.grows (opsAdopt_grows _ undumped.configured),
      opsAdopt_inside undumped.configured (roomy 0) done⟩
  preserve_fails ctx held _ := held.1.preserve
  preserve_succeeds ctx held done := held.1.preserve_succeeds held.2 done
  reap_returns ctx reapable := reapable.reap _

section Runs

variable (env : OpsEnv) (self : SelfInfo) (host : HostTree) (iommus : List Range)
  (present : DeviceId → Bool) (file : Option Range) (answers : ℕ → Answers)
  (probeTimeouts fenceRetries : UInt32) (events : List TakeoverEvent)

def opsRun : Machine (OpsCtx × List (Op × Int)) :=
  takeoverRun opsTakeoverBase.logged
    (takeoverInit (⟨opsInit env self host iommus present file, answers⟩, [])
      probeTimeouts fenceRetries) events

/-- In every run with a dump path: memory is added only after a successful dump that covers it, and
never after a failed one. -/
theorem opsRun_dumps_first (dump : env.dumpPath.isSome = true)
    (room : ∀ n, ∀ r ∈ host.ram.r,
      r.base.toNat + r.size.toNat + (answers n).adopt.plan.granule.toNat ≤ 2 ^ 64) :
    Always DumpFirst (opsRun env self host iommus present file answers probeTimeouts fenceRetries
      events).ctx.1.ops.log := by
  have start : Undumped (opsInit env self host iommus present file) := ⟨dump, by simp [opsInit]⟩
  have roomy : Roomy ⟨opsInit env self host iommus present file, answers⟩ := room
  have holds : (dumpStages fenceRetries).Holds (opsRun env self host iommus present file answers
      probeTimeouts fenceRetries events) :=
    (dumpStages fenceRetries).takeoverRun_holds _ probeTimeouts ⟨start, roomy⟩ events
  generalize opsRun env self host iommus present file answers probeTimeouts fenceRetries events = m
    at holds ⊢
  obtain ⟨-, stage⟩ := holds
  split at stage
  · exact stage.2.1.dumpFirst
  · exact stage.2.1.dumpFirst
  · exact stage.elim
  · exact stage.1.dumpFirst
  · exact stage.1.dumpFirst
  · exact stage

end Runs

def sampleAnswers (dumped : Int) : ℕ → Answers :=
  fun _ => ⟨0, ⟨plainDevices, samplePlan, fun _ => true, ⟨0, 0⟩⟩, dumped, ⟨0, 0⟩⟩

theorem opsRun_dumps_first_sample :
    let log := (opsRun sampleOps.env sampleOps.self sampleOps.host [] (fun _ => false) none
      (sampleAnswers 0) 1 0 [.probeSilent]).ctx.1.ops.log
    log.map Effect.memoryAdd =
        [[], [], [], [], [], [], [⟨0x1000, 0x2000⟩, ⟨0x6000, 0x3000⟩]] ∧ Always DumpFirst log := by
  refine ⟨by decide, ?_⟩
  refine opsRun_dumps_first _ _ _ _ _ _ _ _ _ _ rfl ?_
  intro n
  exact show RoomFor sampleOps.host samplePlan.granule by unfold RoomFor; decide

end Kmorph
