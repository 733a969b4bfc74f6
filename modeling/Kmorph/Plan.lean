import Kmorph.OpsCore
import Kmorph.Ranges

/-!
What a planned adoption takes: the memory and the CPUs of the machine that are
neither this kernel's nor reserved, the memory in whole granules, and from it the
claim on the next pool.
-/

namespace Kmorph

open SpanSets

structure Lists (out seen minus : List UInt64) : Prop where
  once : out.Nodup
  exact : ∀ id, id ∈ out ↔ id ∈ seen ∧ id ∉ minus

theorem cpulistHas_iff {l : List UInt64} {id : UInt64} : cpulistHas l id = true ↔ id ∈ l := by
  simp [cpulistHas]

theorem Lists.next {out seen minus : List UInt64} (lists : Lists out seen minus) (id : UInt64) :
    Lists (if !cpulistHas minus id && !cpulistHas out id then out ++ [id] else out)
      (seen ++ [id]) minus := by
  obtain ⟨once, exactly⟩ := lists
  have wanted : (!cpulistHas minus id && !cpulistHas out id) = true ↔ id ∉ minus ∧ id ∉ out := by
    simp [← cpulistHas_iff]
  by_cases taken : id ∉ minus ∧ id ∉ out
  · rw [if_pos (wanted.mpr taken)]
    refine ⟨?_, ?_⟩
    · rw [List.nodup_append]
      refine ⟨once, by simp, ?_⟩
      intro listed member other same
      obtain rfl : other = id := by simpa using same
      rintro rfl
      exact taken.2 member
    · intro other
      simp only [List.mem_append, List.mem_singleton, exactly]
      constructor
      · rintro (⟨known, free⟩ | rfl)
        · exact ⟨.inl known, free⟩
        · exact ⟨.inr rfl, taken.1⟩
      · rintro ⟨known | same, free⟩
        · exact .inl ⟨known, free⟩
        · exact .inr same
  · rw [if_neg (mt wanted.mp taken)]
    refine ⟨once, ?_⟩
    intro other
    simp only [List.mem_append, List.mem_singleton, exactly]
    constructor
    · rintro ⟨known, free⟩
      exact ⟨.inl known, free⟩
    · rintro ⟨known | rfl, free⟩
      · exact ⟨known, free⟩
      · exact (exactly _).mp (not_not.mp fun missing => taken ⟨free, missing⟩)

theorem cpulistDifference_correct {granted : Bool} {all minus : List UInt64}
    (listed : (cpulistDifference granted all minus).1 = 0) :
    Lists (cpulistDifference granted all minus).2 all minus := by
  cases granted with
  | false => simp [cpulistDifference, ENOMEM] at listed
  | true =>
      have collected : ∀ (rest seen out : List UInt64), Lists out seen minus →
          Lists (rest.foldl (fun out id =>
            if !cpulistHas minus id && !cpulistHas out id then out ++ [id] else out) out)
            (seen ++ rest) minus := by
        intro rest
        induction rest with
        | nil =>
            intro seen out lists
            simpa using lists
        | cons id rest ih =>
            intro seen out lists
            simpa using ih (seen ++ [id]) _ (lists.next id)
      exact collected all [] [] ⟨List.nodup_nil, by simp⟩

structure Takeable.Exact (t : Takeable) (ht : HostTree) (ownRam reserved : Rangeset)
    (ownCpus : List UInt64) : Prop where
  normal : Normal t.memory.r
  nonempty : t.memory.r ≠ []
  memory : addresses t.memory.r = addresses ht.ram.r \ (addresses ownRam.r ∪ addresses reserved.r)
  cpus : Lists t.cpus ht.cpus ownCpus

theorem takeableCompute_correct {mem : TakeableAllocs} {ht : HostTree} {ownRam reserved : Rangeset}
    {ownCpus : List UInt64} (computed : (takeableCompute mem ht ownRam reserved ownCpus).1 = 0) :
    (takeableCompute mem ht ownRam reserved ownCpus).2.Exact ht ownRam reserved ownCpus := by
  simp only [takeableCompute] at computed ⊢
  split_ifs at computed ⊢ with copyFails ownFails reservedFails cpusFail none
  · exact absurd computed copyFails
  · exact absurd computed ownFails
  · exact absurd computed reservedFails
  · exact absurd computed cpusFail
  · simp [ENOENT] at computed
  · have copied := rangesetCopy_addresses (not_not.mp copyFails)
    have own := rangesetSubtractSet_correct copied.1 (not_not.mp ownFails)
    have memory := rangesetSubtractSet_correct own.1 (not_not.mp reservedFails)
    refine ⟨memory.1, (not_or.mp none).1, ?_, cpulistDifference_correct (not_not.mp cpusFail)⟩
    rw [memory.2, own.2, copied.2, Set.sdiff_sdiff]

theorem largestRange_mem {ranges : List Range} {largest : Range}
    (found : largestRange ranges = some largest) : largest ∈ ranges := by
  have chosen : ∀ (rest : List Range) (best : Option Range),
      rest.foldl largerRange best = some largest → best = some largest ∨ largest ∈ rest := by
    intro rest
    induction rest with
    | nil =>
        intro best result
        exact .inl result
    | cons r rest ih =>
        intro best result
        rcases ih _ result with same | later
        · cases best with
          | none =>
              obtain rfl : r = largest := by simpa [largerRange] using same
              exact .inr (by simp)
          | some l =>
              simp only [largerRange] at same
              split at same
              · obtain rfl : r = largest := by simpa using same
                exact .inr (by simp)
              · exact .inl same
        · exact .inr (by simp [later])
  rcases chosen ranges none found with impossible | member
  · simp at impossible
  · exact member

/-- All that `keep_for_pool` can do: keep nothing, fail to record its claim, or record it and
cut it out of the adoptable memory. -/
inductive PoolKept (a : PlanAnswers) (granule : UInt64) (o : Ops) : Int → Ops → Prop
  | nothing : PoolKept a granule o 0 { o with poolClaim := { o.poolClaim with size := 0 } }
  | unrecorded (claim : Range) (failed : a.claimWrite ≠ 0) :
      PoolKept a granule o 0 { o.note [.poolClaimWrite claim a.claimWrite] with
        poolClaim := { claim with size := 0 }, claimFile := a.claimLeft }
  | recorded (largest : Range) (member : largest ∈ o.adoptable.r)
      (fits : poolWant o.env.nextMemory granule ≤ largest.size) (written : a.claimWrite = 0) :
      PoolKept a granule o
        (rangesetSubtract a.split o.adoptable (topOf largest (poolWant o.env.nextMemory granule)).base
          (poolWant o.env.nextMemory granule)).1
        { o.note [.poolClaimWrite (topOf largest (poolWant o.env.nextMemory granule)) 0] with
          poolClaim := topOf largest (poolWant o.env.nextMemory granule)
          claimFile := readableClaim (topOf largest (poolWant o.env.nextMemory granule))
          adoptable := (rangesetSubtract a.split o.adoptable
            (topOf largest (poolWant o.env.nextMemory granule)).base
            (poolWant o.env.nextMemory granule)).2 }

theorem keepForPool_cases (a : PlanAnswers) (granule : UInt64) (o : Ops) :
    PoolKept a granule o (keepForPool a granule o).1 (keepForPool a granule o).2 := by
  simp only [keepForPool]
  split
  · exact .nothing
  · split
    · exact .nothing
    · rename_i largest found
      split
      · exact .nothing
      · rename_i fits
        split
        · rename_i failed
          exact .unrecorded _ failed
        · rename_i written
          have member := largestRange_mem found
          have recorded := not_not.mp written
          rw [recorded]
          exact .recorded largest member (UInt64.not_lt.mp fits) recorded

def PlanAnswers.taken (a : PlanAnswers) (o : Ops) : Int × Takeable :=
  takeableCompute a.takeable o.host a.ownRam.2 o.self.reserved o.self.ownCpus

def PlanAnswers.aligned (a : PlanAnswers) (o : Ops) : Int × Rangeset :=
  rangesetAlign a.align (a.taken o).2.memory a.granule rangesetInit

theorem planAdoption_cases (a : PlanAnswers) (o : Ops) :
    ((planAdoption a o).1 ≠ 0 ∧ ∃ takeable adoptable,
      (planAdoption a o).2 = { o with takeable := takeable, adoptable := adoptable }) ∨
    ((a.taken o).1 = 0 ∧ (a.aligned o).1 = 0 ∧
      planAdoption a o = keepForPool a a.granule
        { o with takeable := (a.taken o).2, adoptable := (a.aligned o).2 }) := by
  simp only [planAdoption]
  split
  · rename_i failed
    exact .inl ⟨failed, _, _, rfl⟩
  · split
    · rename_i failed
      exact .inl ⟨failed, _, _, rfl⟩
    · rename_i computed
      split
      · rename_i failed
        exact .inl ⟨failed, _, _, rfl⟩
      · split
        · rename_i failed
          exact .inl ⟨failed, _, _, rfl⟩
        · rename_i aligned
          exact .inr ⟨not_not.mp computed, not_not.mp aligned, rfl⟩

theorem mem_addresses {ranges : List Range} {point : ℕ} :
    point ∈ addresses ranges ↔
      ∃ r ∈ ranges, r.base.toNat ≤ point ∧ point < r.base.toNat + r.size.toNat := by
  simp [addresses, spans, mem_cover, Range.span]

theorem room_of_subset {ranges ram : List Range} {granule : ℕ} (normal : Normal ranges)
    (subset : addresses ranges ⊆ addresses ram)
    (room : ∀ r ∈ ram, r.base.toNat + r.size.toNat + granule ≤ 2 ^ 64) :
    ∀ r ∈ ranges, r.base.toNat + granule ≤ 2 ^ 64 := by
  intro r member
  have sized := normal.nonempty r member
  have inside : r.base.toNat ∈ addresses ranges := mem_addresses.mpr ⟨r, member, by omega, by omega⟩
  obtain ⟨outer, outerMember, -, below⟩ := mem_addresses.mp (subset inside)
  have above := room outer outerMember
  omega

def Ops.claimed (o : Ops) : Set ℕ :=
  Set.Ico o.poolClaim.base.toNat (o.poolClaim.base.toNat + o.poolClaim.size.toNat)

theorem topOf_subset {ranges : List Range} {r : Range} {size : UInt64} (normal : Normal ranges)
    (member : r ∈ ranges) (fits : size ≤ r.size) :
    Set.Ico (topOf r size).base.toNat ((topOf r size).base.toNat + size.toNat) ⊆
      addresses ranges := by
  have noWrap := normal.noWrap r member
  have small := UInt64.le_iff_toNat_le.mp fits
  have stop : (r.base + r.size).toNat = r.base.toNat + r.size.toNat := by
    rw [UInt64.toNat_add, Nat.mod_eq_of_lt noWrap]
  have start : (topOf r size).base.toNat = r.base.toNat + r.size.toNat - size.toNat := by
    rw [topOf, UInt64.toNat_sub_of_le _ _ (UInt64.le_iff_toNat_le.mpr (by omega)), stop]
  rintro point ⟨above, below⟩
  exact mem_addresses.mpr ⟨r, member, by omega, by omega⟩

namespace PoolKept

variable {a : PlanAnswers} {granule : UInt64} {o after : Ops} {ret : Int}

/-- What keeping memory for the next pool leaves adoptable, with what it keeps, is what was
adoptable. -/
theorem splits (kept : PoolKept a granule o ret after) (normal : Normal o.adoptable.r)
    (succeeded : ret = 0) :
    Normal after.adoptable.r ∧
      addresses after.adoptable.r ∪ after.claimed = addresses o.adoptable.r ∧
      addresses after.adoptable.r ∩ after.claimed = ∅ := by
  cases kept with
  | nothing => simpa [Ops.claimed] using normal
  | unrecorded claim failed => simpa [Ops.claimed, Ops.note] using normal
  | recorded largest member fits written =>
      have cut := rangesetSubtract_correct normal succeeded
      have inside := topOf_subset normal member fits
      refine ⟨cut.1, ?_, ?_⟩
      · rw [Ops.claimed, cut.2]
        exact Set.sdiff_union_of_subset inside
      · rw [Ops.claimed, cut.2]
        exact Set.sdiff_inter_self

theorem frame (kept : PoolKept a granule o ret after) :
    ∃ poolClaim claimFile adoptable log, after =
      { o with
        poolClaim := poolClaim
        claimFile := claimFile
        adoptable := adoptable
        log := log } := by
  cases kept with
  | nothing => exact ⟨_, _, _, _, rfl⟩
  | unrecorded claim failed => exact ⟨_, _, _, _, rfl⟩
  | recorded largest member fits written => exact ⟨_, _, _, _, rfl⟩

theorem onFile (kept : PoolKept a granule o ret after) (claims : after.poolClaim.size ≠ 0) :
    after.claimFile = some after.poolClaim := by
  cases kept with
  | nothing => exact absurd rfl claims
  | unrecorded claim failed => exact absurd rfl claims
  | recorded largest member fits written => exact if_neg claims

end PoolKept

structure Planned (a : PlanAnswers) (o planned : Ops) : Prop where
  takeable : planned.takeable.Exact o.host a.ownRam.2 o.self.reserved o.self.ownCpus
  normal : Normal planned.adoptable.r
  whole : addresses planned.adoptable.r ∪ planned.claimed =
    wholeBlocks a.granule.toNat (addresses planned.takeable.memory.r)
  apart : addresses planned.adoptable.r ∩ planned.claimed = ∅
  onFile : planned.poolClaim.size ≠ 0 → planned.claimFile = some planned.poolClaim

/-- No RAM in the last granule of the address space. -/
def RoomFor (host : HostTree) (granule : UInt64) : Prop :=
  ∀ r ∈ host.ram.r, r.base.toNat + r.size.toNat + granule.toNat ≤ 2 ^ 64

theorem PlanAnswers.aligned_whole {a : PlanAnswers} {o : Ops} (room : RoomFor o.host a.granule)
    (computed : (a.taken o).1 = 0) (aligned : (a.aligned o).1 = 0) :
    Normal (a.aligned o).2.r ∧
      addresses (a.aligned o).2.r = wholeBlocks a.granule.toNat (addresses (a.taken o).2.memory.r) := by
  have taken : (a.taken o).2.Exact o.host a.ownRam.2 o.self.reserved o.self.ownCpus :=
    takeableCompute_correct computed
  have inside : addresses (a.taken o).2.memory.r ⊆ addresses o.host.ram.r := by
    rw [taken.memory]
    exact Set.sdiff_subset
  exact rangesetAlign_correct taken.normal (room_of_subset taken.normal inside room) aligned

theorem planAdoption_planned {a : PlanAnswers} {o : Ops} (room : RoomFor o.host a.granule)
    (planned : (planAdoption a o).1 = 0) : Planned a o (planAdoption a o).2 := by
  rcases planAdoption_cases a o with ⟨failed, -⟩ | ⟨computed, aligned, reached⟩
  · exact absurd planned failed
  · have taken : (a.taken o).2.Exact o.host a.ownRam.2 o.self.reserved o.self.ownCpus :=
      takeableCompute_correct computed
    have blocks := PlanAnswers.aligned_whole room computed aligned
    rw [reached] at planned ⊢
    have kept := keepForPool_cases a a.granule
      { o with takeable := (a.taken o).2, adoptable := (a.aligned o).2 }
    have splits := kept.splits blocks.1 planned
    have onFile := kept.onFile
    obtain ⟨poolClaim, claimFile, adoptable, log, frame⟩ := kept.frame
    rw [frame] at splits onFile ⊢
    exact ⟨taken, splits.1, splits.2.1.trans blocks.2, splits.2.2, onFile⟩

/-- Whenever a planning succeeds, it takes exactly the host memory and CPUs that are neither this
kernel's nor reserved, and splits the whole granules of that memory into what is adoptable and
what the next pool keeps. -/
theorem planAdoption_exact (a : PlanAnswers) (o : Ops)
    (room : ∀ r ∈ o.host.ram.r, r.base.toNat + r.size.toNat + a.granule.toNat ≤ 2 ^ 64)
    (success : (planAdoption a o).1 = 0) :
    let planned := (planAdoption a o).2
    addresses planned.takeable.memory.r =
        addresses o.host.ram.r \ (addresses a.ownRam.2.r ∪ addresses o.self.reserved.r) ∧
      planned.takeable.cpus.Nodup ∧
      (∀ id, id ∈ planned.takeable.cpus ↔ id ∈ o.host.cpus ∧ id ∉ o.self.ownCpus) ∧
      Normal planned.adoptable.r ∧
      addresses planned.adoptable.r ∪ planned.claimed =
        wholeBlocks a.granule.toNat (addresses planned.takeable.memory.r) ∧
      addresses planned.adoptable.r ∩ planned.claimed = ∅ := by
  intro planned
  obtain ⟨takeable, normal, whole, apart, -⟩ := planAdoption_planned room success
  exact ⟨takeable.memory, takeable.cpus.once, takeable.cpus.exact, normal, whole, apart⟩

/-- A machine with RAM in `[0, 0x9800)`, of which the successor owns the first page and a region
at `0x5000` is reserved. -/
def sampleOps : Ops :=
  opsInit ⟨some "/var/crash/vmcore", true, false, 0x1000, some "/run/kmorph/pool"⟩
    ⟨"spare", [0], ⟨[⟨0x5000, 0x800⟩], 1⟩⟩
    { cpus := [0, 1, 2], ram := ⟨[⟨0, 0x9800⟩], 1⟩, devices := [], vmcore := .init }
    [] (fun _ => false) none

def samplePlan : PlanAnswers where
  ownRam := (0, ⟨[⟨0, 0x1000⟩], 1⟩)
  takeable := ⟨fun _ => true, fun _ => true, fun _ => true, true⟩
  published := (0, 0x1000)
  blockSize := (-ENOENT, 0)
  align := fun _ => true
  claimWrite := 0
  claimLeft := none
  split := true

theorem planAdoption_exact_sample :
    let planned := (planAdoption samplePlan sampleOps).2
    planned.adoptable.r = [⟨0x1000, 0x2000⟩, ⟨0x6000, 0x3000⟩] ∧ planned.poolClaim = ⟨0x3000, 0x2000⟩ ∧
      addresses planned.adoptable.r ∪ planned.claimed =
        wholeBlocks 0x1000 (addresses planned.takeable.memory.r) := by
  intro planned
  have exactly := planAdoption_exact samplePlan sampleOps (by decide) (by decide)
  exact ⟨by decide, by decide, exactly.2.2.2.2.1⟩

end Kmorph
