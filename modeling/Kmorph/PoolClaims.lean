import Kmorph.Preserve

/-!
The memory kept for the next pool over every run of the takeover: what is added to
this kernel against what the claim file offers, from the first attempt to adopt on.
-/

namespace Kmorph

/-- The addresses a reader of the claim file gets. -/
def offered (o : Ops) : Set ℕ := addresses o.claimFile.toList

theorem alignLoop_normal {block : UInt64} {mem : ℕ → Bool} {out : Rangeset} {ranges : List Range}
    (normal : Normal out.r) (aligned : (alignLoop block mem out ranges).1 = 0) :
    Normal (alignLoop block mem out ranges).2.r := by
  induction ranges generalizing mem out with
  | nil => exact normal
  | cons r rest ih =>
      simp only [alignLoop] at aligned ⊢
      split at aligned
      · rename_i empty
        rw [if_pos empty]
        exact ih normal aligned
      · rename_i some
        rw [if_neg some]
        split at aligned
        · exact absurd aligned ‹_›
        · rename_i added
          rw [if_neg added]
          exact ih (rangesetAdd_correct normal (not_not.mp added)).1 aligned

theorem PlanAnswers.aligned_normal {a : PlanAnswers} {o : Ops} (aligned : (a.aligned o).1 = 0) :
    Normal (a.aligned o).2.r := by
  unfold PlanAnswers.aligned rangesetAlign at aligned ⊢
  split at aligned
  · simp [EINVAL] at aligned
  · rename_i sized
    rw [if_neg sized]
    exact alignLoop_normal normal_nil aligned

/-- The planning records a claim: one is wanted, a range is large enough, and the write succeeds. -/
def KeepsClaim (a : PlanAnswers) (o : Ops) : Prop :=
  o.env.nextMemory ≠ 0 ∧ o.env.poolClaimPath ≠ none ∧ a.claimWrite = 0 ∧
    ∃ largest ∈ largestRange (a.aligned o).2.r,
      poolWant o.env.nextMemory a.granule ≤ largest.size

instance (a : PlanAnswers) (o : Ops) : Decidable (KeepsClaim a o) :=
  inferInstanceAs (Decidable (_ ∧ _ ∧ _ ∧ _))

/-- A failed write leaves the claim file untouched or without a readable claim. -/
def LeavesFile (a : PlanAnswers) (o : Ops) : Prop :=
  a.claimWrite ≠ 0 → a.claimLeft = o.claimFile ∨ a.claimLeft = none

instance (a : PlanAnswers) (o : Ops) : Decidable (LeavesFile a o) :=
  inferInstanceAs (Decidable (_ → _))

theorem offered_of_none {o : Ops} (none : o.claimFile = none) : offered o = ∅ := by
  simp [offered, none, addresses, spans]

theorem recorded_apart {a : PlanAnswers} {o : Ops} {claim : Range} (normal : Normal o.adoptable.r)
    (cut : (rangesetSubtract a.split o.adoptable claim.base claim.size).1 = 0) :
    addresses (rangesetSubtract a.split o.adoptable claim.base claim.size).2.r ∩
      addresses (readableClaim claim).toList = ∅ := by
  rw [(rangesetSubtract_correct normal cut).2]
  unfold readableClaim
  split
  · simp [addresses, spans]
  · simp [addresses, spans, Range.span]

theorem keepForPool_apart {a : PlanAnswers} {granule : UInt64} {o : Ops}
    (normal : Normal o.adoptable.r) (leaves : LeavesFile a o)
    (renews : o.claimFile = none ∨ o.env.nextMemory ≠ 0 ∧ o.env.poolClaimPath ≠ none ∧
      a.claimWrite = 0 ∧ ∃ largest ∈ largestRange o.adoptable.r,
        poolWant o.env.nextMemory granule ≤ largest.size)
    (kept : (keepForPool a granule o).1 = 0) :
    Normal (keepForPool a granule o).2.adoptable.r ∧
      addresses (keepForPool a granule o).2.adoptable.r ∩ offered (keepForPool a granule o).2 = ∅ := by
  refine ⟨((keepForPool_cases a granule o).splits normal kept).1, ?_⟩
  have empty (after : Ops) (unoffered : after.claimFile = none) :
      addresses after.adoptable.r ∩ offered after = ∅ := by
    rw [offered_of_none unoffered, Set.inter_empty]
  simp only [keepForPool] at kept ⊢
  split
  · rename_i unwanted
    refine empty _ (renews.resolve_right ?_)
    rintro ⟨wanted, path, -⟩
    exact unwanted.elim wanted path
  · rename_i wanted
    rw [if_neg wanted] at kept
    cases found : largestRange o.adoptable.r with
    | none =>
        refine empty _ (renews.resolve_right ?_)
        rintro ⟨-, -, -, largest, other, -⟩
        simp [found] at other
    | some largest =>
        simp only [found] at kept ⊢
        split
        · rename_i small
          refine empty _ (renews.resolve_right ?_)
          rintro ⟨-, -, -, other, same, fits⟩
          obtain rfl : largest = other := by simpa [found] using same
          exact absurd small (UInt64.not_lt.mpr fits)
        · rename_i fits
          rw [if_neg fits] at kept
          split
          · rename_i failed
            have none : o.claimFile = none := renews.resolve_right fun again => failed again.2.2.1
            exact empty _ ((leaves failed).elim (·.trans none) id)
          · rename_i written
            rw [if_neg written] at kept
            exact recorded_apart normal kept

theorem planAdoption_apart {a : PlanAnswers} {o : Ops} (leaves : LeavesFile a o)
    (renews : o.claimFile = none ∨ KeepsClaim a o) (planned : (planAdoption a o).1 = 0) :
    Normal (planAdoption a o).2.adoptable.r ∧
      addresses (planAdoption a o).2.adoptable.r ∩ offered (planAdoption a o).2 = ∅ := by
  rcases planAdoption_cases a o with ⟨failed, -⟩ | ⟨-, aligned, reached⟩
  · exact absurd planned failed
  · rw [reached] at planned ⊢
    exact keepForPool_apart (PlanAnswers.aligned_normal aligned) leaves renews planned

/-- The same ops on a context that also keeps the context each call was made in. -/
def TakeoverOps.traced {σ : Type} (ops : TakeoverOps σ) : TakeoverOps (σ × List (Op × σ)) where
  fence ctx := match ops.fence ctx.1 with | (ret, inner) => (ret, inner, ctx.2 ++ [(.fence, ctx.1)])
  adopt ctx := match ops.adopt ctx.1 with | (ret, inner) => (ret, inner, ctx.2 ++ [(.adopt, ctx.1)])
  preserve ctx := match ops.preserve ctx.1 with
    | (ret, inner) => (ret, inner, ctx.2 ++ [(.preserve, ctx.1)])
  reap ctx := match ops.reap ctx.1 with | (ret, inner) => (ret, inner, ctx.2 ++ [(.reap, ctx.1)])
  onState tk s ctx := (ops.onState tk s ctx.1, ctx.2)

abbrev Traced := OpsCtx × List (Op × OpsCtx)

def OpsCtx.plan (ctx : OpsCtx) : PlanAnswers := (ctx.answers 0).adopt.plan

/-- Nothing that was added is on offer. -/
def Apart (o : Ops) : Prop := ∀ e ∈ o.log, addresses e.added ∩ offered o = ∅

theorem apart_of_unadded {o : Ops} (unadded : ∀ e ∈ o.log, e.added = []) : Apart o := by
  intro e member
  simp [unadded e member, addresses, spans]

/-- Every attempt that finds a claim on file records one again. -/
def Renewed (trace : List (Op × OpsCtx)) : Prop :=
  ∀ c ∈ trace, c.1 = .adopt → c.2.ops.claimFile = none ∨ KeepsClaim c.2.plan c.2.ops

def FileLeft (trace : List (Op × OpsCtx)) : Prop :=
  ∀ c ∈ trace, c.1 = .adopt → LeavesFile c.2.plan c.2.ops

structure Unadded (ctx : Traced) : Prop where
  log : ∀ e ∈ ctx.1.ops.log, e.added = []
  trace : ∀ c ∈ ctx.2, ∀ e ∈ c.2.ops.log, e.added = []
  preserved : ctx.1.ops.env.dumpPath.isSome = false → ctx.1.ops.preserved.r = []

structure Separate (ctx : Traced) : Prop where
  trace : ∀ c ∈ ctx.2, Apart c.2.ops
  now : Apart ctx.1.ops

section Attempts

variable {ctx : Traced}

theorem Unadded.next (unadded : Unadded ctx) (op : Op) (after : Ops)
    (log : ∃ new, after.log = ctx.1.ops.log ++ new ∧ ∀ e ∈ new, e.added = [])
    (preserved : after.env.dumpPath.isSome = false → after.preserved.r = []) (answers : ℕ → Answers) :
    Unadded (⟨after, answers⟩, ctx.2 ++ [(op, ctx.1)]) := by
  obtain ⟨new, same, fresh⟩ := log
  refine ⟨?_, ?_, preserved⟩
  · rw [same]
    intro e member
    exact (List.mem_append.mp member).elim (unadded.log e) (fresh e)
  · intro c member
    rcases List.mem_append.mp member with old | last
    · exact unadded.trace c old
    · obtain rfl := List.mem_singleton.mp last
      exact unadded.log

theorem Separate.next (separate : Separate ctx) (op : Op) (after : Ops)
    (file : after.claimFile = ctx.1.ops.claimFile)
    (log : ∃ new, after.log = ctx.1.ops.log ++ new ∧
      ∀ e ∈ new, addresses e.added ∩ offered ctx.1.ops = ∅) (answers : ℕ → Answers) :
    Separate (⟨after, answers⟩, ctx.2 ++ [(op, ctx.1)]) := by
  obtain ⟨new, same, fresh⟩ := log
  constructor
  · intro c member
    rcases List.mem_append.mp member with old | last
    · exact separate.trace c old
    · obtain rfl := List.mem_singleton.mp last
      exact separate.now
  · rw [Apart, same, offered, file]
    intro e member
    exact (List.mem_append.mp member).elim (separate.now e) (fresh e)

theorem Unadded.fence (unadded : Unadded ctx) (ret : Int) (answers : ℕ → Answers) :
    Unadded (⟨(opsFence ret ctx.1.ops).2, answers⟩, ctx.2 ++ [(.fence, ctx.1)]) := by
  refine unadded.next .fence (opsFence ret ctx.1.ops).2 ⟨[.fence ret], rfl, ?_⟩ unadded.preserved answers
  intro e member
  obtain rfl := List.mem_singleton.mp member
  rfl

theorem Unadded.adopt_fails (unadded : Unadded ctx) (a : AdoptAnswers) (answers : ℕ → Answers)
    (failed : (opsAdopt a ctx.1.ops).1 ≠ 0) :
    Unadded (⟨(opsAdopt a ctx.1.ops).2, answers⟩, ctx.2 ++ [(.adopt, ctx.1)]) := by
  have adopted := opsAdopt_adopted a ctx.1.ops
  obtain ⟨new, log, added⟩ := adopted.log
  refine unadded.next .adopt _ ⟨new, log, ?_⟩ ?_ answers
  · intro e member
    rcases added e member with quiet | ⟨-, none | applied⟩
    · exact quiet.added
    · exact none
    · exact absurd applied.1 failed
  · intro undumped
    rw [adopted.env] at undumped
    rw [adopted.unpreserved undumped]
    exact unadded.preserved undumped

theorem planAttempt_apart {a : AdoptAnswers} {o : Ops} (left : LeavesFile a.plan o)
    (renews : o.claimFile = none ∨ KeepsClaim a.plan o)
    (planned : (planAdoption a.plan (tryDevices a.devices o)).1 = 0) :
    Normal (planAdoption a.plan (tryDevices a.devices o)).2.adoptable.r ∧
      addresses (planAdoption a.plan (tryDevices a.devices o)).2.adoptable.r ∩
        offered (planAdoption a.plan (tryDevices a.devices o)).2 = ∅ := by
  -- The devices change nothing that the planning reads.
  have leaves : LeavesFile a.plan (tryDevices a.devices o) := by
    unfold tryDevices
    split <;> exact left
  have again : (tryDevices a.devices o).claimFile = none ∨
      KeepsClaim a.plan (tryDevices a.devices o) := by
    unfold tryDevices
    split <;> exact renews
  exact planAdoption_apart leaves again planned

theorem Unadded.adopt_succeeds (unadded : Unadded ctx) (a : AdoptAnswers) (answers : ℕ → Answers)
    (done : (opsAdopt a ctx.1.ops).1 = 0) (left : LeavesFile a.plan ctx.1.ops)
    (renews : ctx.1.ops.claimFile = none ∨ KeepsClaim a.plan ctx.1.ops) :
    Separate (⟨(opsAdopt a ctx.1.ops).2, answers⟩, ctx.2 ++ [(.adopt, ctx.1)]) ∧
      addresses (opsAdopt a ctx.1.ops).2.preserved.r ∩ offered (opsAdopt a ctx.1.ops).2 = ∅ := by
  have adopted := opsAdopt_adopted a ctx.1.ops
  obtain ⟨normal, apart⟩ := planAttempt_apart left renews (adopted.planned done)
  have file : offered (opsAdopt a ctx.1.ops).2 =
      offered (planAdoption a.plan (tryDevices a.devices ctx.1.ops)).2 := by
    rw [offered, adopted.file, offered]
  rw [← file] at apart
  refine ⟨⟨?_, ?_⟩, ?_⟩
  · intro c member
    rcases List.mem_append.mp member with old | last
    · exact apart_of_unadded (unadded.trace c old)
    · obtain rfl := List.mem_singleton.mp last
      exact apart_of_unadded unadded.log
  · obtain ⟨new, log, added⟩ := adopted.log
    intro e member
    have unoffered : e.added = [] ∨ e.added =
        (planAdoption a.plan (tryDevices a.devices ctx.1.ops)).2.adoptable.r := by
      rcases List.mem_append.mp (log ▸ member) with old | fresh
      · exact .inl (unadded.log e old)
      · rcases added e fresh with quiet | ⟨-, none | applied⟩
        · exact .inl quiet.added
        · exact .inl none
        · exact .inr applied.2
    rcases unoffered with none | all
    · simp [none, addresses, spans]
    · rw [all]
      exact apart
  · cases dump : ctx.1.ops.env.dumpPath.isSome with
    | true =>
        rw [adopted.preserved done dump normal]
        exact apart
    | false =>
        rw [adopted.unpreserved dump, unadded.preserved dump]
        simp [addresses, spans]

theorem opsPreserve_logs (dumped : Int) (o : Ops) :
    ∃ new, (opsPreserve dumped o).2 = o.note new ∧ ∀ e ∈ new, e.added = [] := by
  simp only [opsPreserve]
  split
  · exact ⟨[], by simp [Ops.note], by simp⟩
  · refine ⟨_, rfl, ?_⟩
    intro e member
    obtain rfl := List.mem_singleton.mp member
    rfl

theorem opsReap_logs (a : OverlayAnswer) (o : Ops) :
    (opsReap a o).2.claimFile = o.claimFile ∧
      ∃ new, (opsReap a o).2.log = o.log ++ new ∧
        ∀ e ∈ new, e.added = [] ∨ e.added = o.preserved.r := by
  simp only [opsReap]
  split
  · exact ⟨rfl, [], by simp, by simp⟩
  · obtain ⟨new, after, added⟩ := applyAdopt_cases a [] o.preserved o
    have entries : ∀ e ∈ new, e.added = [] ∨ e.added = o.preserved.r :=
      fun e member => (added e member).2.2.imp id And.right
    rw [after]
    split
    · exact ⟨rfl, new, rfl, entries⟩
    · exact ⟨rfl, new, rfl, entries⟩

theorem Separate.preserve (separate : Separate ctx)
    (unoffered : addresses ctx.1.ops.preserved.r ∩ offered ctx.1.ops = ∅) (dumped : Int)
    (answers : ℕ → Answers) :
    Separate (⟨(opsPreserve dumped ctx.1.ops).2, answers⟩, ctx.2 ++ [(.preserve, ctx.1)]) ∧
      addresses (opsPreserve dumped ctx.1.ops).2.preserved.r ∩
        offered (opsPreserve dumped ctx.1.ops).2 = ∅ := by
  obtain ⟨new, after, added⟩ := opsPreserve_logs dumped ctx.1.ops
  rw [after]
  refine ⟨separate.next .preserve (ctx.1.ops.note new) rfl ⟨new, rfl, ?_⟩ answers, unoffered⟩
  intro e member
  simp [added e member, addresses, spans]

theorem Separate.reap (separate : Separate ctx)
    (unoffered : addresses ctx.1.ops.preserved.r ∩ offered ctx.1.ops = ∅) (a : OverlayAnswer)
    (answers : ℕ → Answers) :
    Separate (⟨(opsReap a ctx.1.ops).2, answers⟩, ctx.2 ++ [(.reap, ctx.1)]) := by
  obtain ⟨file, new, log, added⟩ := opsReap_logs a ctx.1.ops
  refine separate.next .reap _ file ⟨new, log, ?_⟩ answers
  intro e member
  rcases added e member with none | all
  · simp [none, addresses, spans]
  · rw [all]
    exact unoffered

end Attempts

/-- What every attempt made so far keeps to. -/
def PoolKeeping (trace : List (Op × OpsCtx)) : Prop := FileLeft trace ∧ Renewed trace

theorem PoolKeeping.of_append {trace : List (Op × OpsCtx)} {call : Op × OpsCtx}
    (kept : PoolKeeping (trace ++ [call])) : PoolKeeping trace :=
  ⟨fun c member => kept.1 c (List.mem_append_left _ member),
    fun c member => kept.2 c (List.mem_append_left _ member)⟩

def claimStages (retries : UInt32) : Stages opsTakeoverBase.traced retries where
  watching := Unadded
  failed _ := Unadded
  fenced := Unadded
  adopted ctx := PoolKeeping ctx.2 →
    Separate ctx ∧ addresses ctx.1.ops.preserved.r ∩ offered ctx.1.ops = ∅
  preserved ctx := PoolKeeping ctx.2 →
    Separate ctx ∧ addresses ctx.1.ops.preserved.r ∩ offered ctx.1.ops = ∅
  takenOver ctx := PoolKeeping ctx.2 → Separate ctx
  watching_onState _ _ _ held := held
  failed_onState _ _ _ _ held := held
  fenced_onState _ _ _ held := held
  takenOver_onState _ _ _ held := held
  fence_fails attempts ctx ready _ := by
    have unadded : Unadded ctx := ready.elim And.right And.right
    exact unadded.fence _ _
  fence_succeeds attempts ctx ready _ := by
    have unadded : Unadded ctx := ready.elim And.right And.right
    exact unadded.fence _ _
  adopt_fails ctx unadded failed := unadded.adopt_fails _ _ failed
  adopt_succeeds ctx unadded done kept :=
    unadded.adopt_succeeds _ _ done
      (kept.1 (.adopt, ctx.1) (List.mem_append_right _ List.mem_cons_self) rfl)
      (kept.2 (.adopt, ctx.1) (List.mem_append_right _ List.mem_cons_self) rfl)
  preserve_fails ctx adopted _ kept :=
    have held := adopted kept.of_append
    (held.1.preserve held.2 _ _).1
  preserve_succeeds ctx adopted _ kept :=
    have held := adopted kept.of_append
    held.1.preserve held.2 _ _
  reap_returns ctx preserved kept :=
    have held := preserved kept.of_append
    held.1.reap held.2 _ _

/-- In every run from no claim on file, if every attempt to adopt that finds a claim on file records
one again, then in the context of every call and at the end nothing that was added is on offer. -/
theorem opsRun_added_unoffered (env : OpsEnv) (self : SelfInfo) (host : HostTree)
    (iommus : List Range) (present : DeviceId → Bool) (answers : ℕ → Answers)
    (probeTimeouts fenceRetries : UInt32) (events : List TakeoverEvent) :
    let m := takeoverRun opsTakeoverBase.traced (takeoverInit
      (⟨opsInit env self host iommus present none, answers⟩, []) probeTimeouts fenceRetries) events
    FileLeft m.ctx.2 → Renewed m.ctx.2 →
      Apart m.ctx.1.ops ∧ ∀ c ∈ m.ctx.2, Apart c.2.ops := by
  intro m left renewed
  have start : Unadded (⟨opsInit env self host iommus present none, answers⟩, []) :=
    ⟨by simp [opsInit], by simp, fun _ => rfl⟩
  have holds : (claimStages fenceRetries).Holds m :=
    (claimStages fenceRetries).takeoverRun_holds _ probeTimeouts start events
  clear_value m
  have early (unadded : Unadded m.ctx) : Apart m.ctx.1.ops ∧ ∀ c ∈ m.ctx.2, Apart c.2.ops :=
    ⟨apart_of_unadded unadded.log, fun c member => apart_of_unadded (unadded.trace c member)⟩
  obtain ⟨-, stage⟩ := holds
  split at stage
  · exact early stage.2
  · exact early stage.2
  · exact stage.elim
  · exact early stage
  · exact early stage
  · have separate := stage ⟨left, renewed⟩
    exact ⟨separate.now, separate.trace⟩

/-- Two attempts without a dump: the overlay of the first fails, the second plans with `second`. -/
def retriedRun (second : PlanAnswers) : Machine Traced :=
  takeoverRun opsTakeoverBase.traced (takeoverInit
    (⟨opsInit { sampleOps.env with dumpPath := none } sampleOps.self sampleOps.host []
        (fun _ => false) none,
      fun call => if call = 1 then
        ⟨0, ⟨plainDevices, samplePlan, fun _ => true, ⟨0, -EBUSY⟩⟩, 0, ⟨0, 0⟩⟩
      else ⟨0, ⟨plainDevices, second, fun _ => true, ⟨0, 0⟩⟩, 0, ⟨0, 0⟩⟩⟩, []) 1 0)
    [.probeSilent, .probeSilent]

theorem opsRun_added_unoffered_renewed :
    (retriedRun samplePlan).ctx.1.ops.log.map Effect.added =
        [[], [], [], [], [], [], [⟨0x1000, 0x2000⟩, ⟨0x6000, 0x3000⟩]] ∧
      (retriedRun samplePlan).ctx.1.ops.claimFile = some ⟨0x3000, 0x2000⟩ ∧
      Apart (retriedRun samplePlan).ctx.1.ops ∧
      ∀ c ∈ (retriedRun samplePlan).ctx.2, Apart c.2.ops := by
  refine ⟨by decide +kernel, by decide +kernel, ?_⟩
  refine opsRun_added_unoffered _ _ _ _ _ _ _ _ _ ?_ ?_
  · unfold FileLeft
    decide +kernel
  · unfold Renewed
    decide +kernel

/-- The first attempt records a claim; the second cannot write its own, and adds what the file still
offers. -/
theorem stale_claim_added :
    let unwritten := { samplePlan with claimWrite := -ENOSPC, claimLeft := some ⟨0x3000, 0x2000⟩ }
    FileLeft (retriedRun unwritten).ctx.2 ∧
      (retriedRun unwritten).ctx.1.ops.log.map Effect.added =
        [[], [], [], [], [], [], [⟨0x1000, 0x4000⟩, ⟨0x6000, 0x3000⟩]] ∧
      (retriedRun unwritten).ctx.1.ops.claimFile = some ⟨0x3000, 0x2000⟩ ∧
      ¬ Apart (retriedRun unwritten).ctx.1.ops := by
  intro unwritten
  have added : (retriedRun unwritten).ctx.1.ops.log.map Effect.added =
      [[], [], [], [], [], [], [⟨0x1000, 0x4000⟩, ⟨0x6000, 0x3000⟩]] := by decide +kernel
  have file : (retriedRun unwritten).ctx.1.ops.claimFile = some ⟨0x3000, 0x2000⟩ := by
    decide +kernel
  refine ⟨by unfold FileLeft; decide +kernel, added, file, ?_⟩
  intro apart
  have entry : [⟨0x1000, 0x4000⟩, ⟨0x6000, 0x3000⟩] ∈
      (retriedRun unwritten).ctx.1.ops.log.map Effect.added := by simp [added]
  obtain ⟨e, member, same⟩ := List.mem_map.mp entry
  have both : 0x3000 ∈ addresses e.added ∩ offered (retriedRun unwritten).ctx.1.ops := by
    rw [same, offered, file]
    exact ⟨mem_addresses.mpr ⟨_, List.mem_cons_self, by decide, by decide⟩,
      mem_addresses.mpr ⟨_, List.mem_cons_self, by decide, by decide⟩⟩
  rw [apart e member] at both
  exact both

end Kmorph
