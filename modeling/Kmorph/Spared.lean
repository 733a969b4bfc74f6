import Kmorph.PoolClaims

/-!
The predecessor's memory that no dump contains: what each planning of an adoption
must leave for it to be neither taken over undumped nor offered to the next pool,
over every run of the takeover with a dump configured.
-/

namespace Kmorph

def TriesClaim (a : PlanAnswers) (o : Ops) : Prop :=
  o.env.nextMemory ≠ 0 ∧ o.env.poolClaimPath ≠ none ∧
    ∃ largest ∈ largestRange (a.aligned o).2.r,
      poolWant o.env.nextMemory a.granule ≤ largest.size

instance (a : PlanAnswers) (o : Ops) : Decidable (TriesClaim a o) :=
  inferInstanceAs (Decidable (_ ∧ _ ∧ _))

theorem keepsClaim_iff {a : PlanAnswers} {o : Ops} :
    KeepsClaim a o ↔ TriesClaim a o ∧ a.claimWrite = 0 := by
  unfold KeepsClaim TriesClaim
  tauto

def PlanAnswers.unrecorded (a : PlanAnswers) (o : Ops) : Option Range :=
  if TriesClaim a o then a.claimLeft else o.claimFile

/-- There are whole granules, and the next pool does not get all of them. -/
def LeavesAdoptable (a : PlanAnswers) (o : Ops) : Prop :=
  (a.aligned o).2.r ≠ [] ∧
    (KeepsClaim a o → ∀ base, (a.aligned o).2.r ≠ [⟨base, poolWant o.env.nextMemory a.granule⟩])

/-- No claim is recorded, and the one on file has none of the takeable memory. -/
def LeavesUnoffered (a : PlanAnswers) (o : Ops) : Prop :=
  ¬ KeepsClaim a o ∧
    addresses (a.taken o).2.memory.r ∩ addresses (a.unrecorded o).toList = ∅

theorem cut_nonempty {split : Bool} {s : Rangeset} {largest : Range} {want : UInt64}
    (normal : Normal s.r) (member : largest ∈ s.r) (fits : want ≤ largest.size)
    (cut : (rangesetSubtract split s (topOf largest want).base want).1 = 0) :
    (rangesetSubtract split s (topOf largest want).base want).2.r ≠ [] ↔
      ∀ base, s.r ≠ [⟨base, want⟩] := by
  obtain ⟨sized, noWrap⟩ := argument_valid_of_accepted (rangesetSubtract_rejects split) cut
  obtain ⟨cutNormal, cutAddresses⟩ := rangesetSubtract_correct normal cut
  have inside := topOf_subset normal member fits
  have one (base : UInt64) : addresses [⟨base, want⟩] =
      Set.Ico base.toNat (base.toNat + want.toNat) := by
    simp [addresses, spans, Range.span]
  constructor
  · intro left base only
    obtain rfl : largest = ⟨base, want⟩ := by simpa [only] using member
    have same : topOf ⟨base, want⟩ want = ⟨base, want⟩ := by simp [topOf]
    refine left (cutNormal.eq_of_addresses_eq normal_nil ?_)
    rw [cutAddresses, same, only, one, Set.sdiff_self]
    simp [addresses, spans]
  · intro more none
    -- Nothing is left, so the claim is all there was, and the normal form of that is one range.
    have all : addresses s.r = addresses [topOf largest want] := by
      rw [show topOf largest want = ⟨(topOf largest want).base, want⟩ from rfl, one]
      refine subset_antisymm ?_ inside
      rw [← Set.sdiff_eq_empty, ← cutAddresses, none]
      simp [addresses, spans]
    have claimNormal : Normal [topOf largest want] :=
      ⟨by simpa [topOf] using sized, by simpa [topOf] using noWrap, by simp⟩
    exact more _ (normal.eq_of_addresses_eq claimNormal all)

structure PlanLeaves (a : PlanAnswers) (o after : Ops) : Prop where
  computed : (a.taken o).1 = 0
  aligned : (a.aligned o).1 = 0
  takeable : after.takeable = (a.taken o).2
  normal : Normal after.adoptable.r
  adoptable : after.adoptable.r ≠ [] ↔ LeavesAdoptable a o
  recorded : KeepsClaim a o → ∃ largest ∈ (a.aligned o).2.r,
    poolWant o.env.nextMemory a.granule ≤ largest.size ∧
      0 < (poolWant o.env.nextMemory a.granule).toNat ∧
      after.claimFile = some (topOf largest (poolWant o.env.nextMemory a.granule))
  unrecorded : ¬ KeepsClaim a o → after.claimFile = a.unrecorded o

section Keep

variable {a : PlanAnswers} {o : Ops}

theorem keepForPool_untried (untried : ¬ TriesClaim a o) :
    ∃ poolClaim, keepForPool a a.granule { o with takeable := (a.taken o).2, adoptable := (a.aligned o).2 } =
      (0, { o with takeable := (a.taken o).2, adoptable := (a.aligned o).2, poolClaim := poolClaim }) := by
  simp only [keepForPool]
  split
  · exact ⟨_, rfl⟩
  rename_i wanted
  cases found : largestRange (a.aligned o).2.r with
  | none => exact ⟨_, rfl⟩
  | some largest =>
      simp only
      split
      · exact ⟨_, rfl⟩
      · rename_i large
        have fits := UInt64.not_lt.mp large
        exact absurd ⟨(not_or.mp wanted).1, (not_or.mp wanted).2, largest, found, fits⟩ untried

theorem keepForPool_tried (tried : TriesClaim a o) :
    ∃ largest ∈ (a.aligned o).2.r, poolWant o.env.nextMemory a.granule ≤ largest.size ∧
      ∃ log, keepForPool a a.granule { o with takeable := (a.taken o).2, adoptable := (a.aligned o).2 } =
        let claim := topOf largest (poolWant o.env.nextMemory a.granule)
        if a.claimWrite ≠ 0 then
          (0, { o with
            takeable := (a.taken o).2, adoptable := (a.aligned o).2, log := log
            poolClaim := { claim with size := 0 }, claimFile := a.claimLeft })
        else
          let cut := rangesetSubtract a.split (a.aligned o).2 claim.base claim.size
          (cut.1, { o with
            takeable := (a.taken o).2, adoptable := cut.2, log := log
            poolClaim := claim, claimFile := readableClaim claim }) := by
  obtain ⟨memory, path, largest, found, fits⟩ := tried
  refine ⟨largest, largestRange_mem found, fits, ?_⟩
  simp only [keepForPool]
  rw [if_neg (not_or.mpr ⟨memory, path⟩), found]
  simp only
  rw [if_neg (UInt64.not_lt.mpr fits)]
  exact ⟨_, rfl⟩

end Keep

theorem planAdoption_leaves {a : PlanAnswers} {o : Ops} (planned : (planAdoption a o).1 = 0) :
    PlanLeaves a o (planAdoption a o).2 := by
  rcases planAdoption_cases a o with ⟨failed, -⟩ | ⟨computed, aligned, reached⟩
  · exact absurd planned failed
  have normal := PlanAnswers.aligned_normal aligned
  have unkept (not : ¬ KeepsClaim a o) : (a.aligned o).2.r ≠ [] ↔ LeavesAdoptable a o :=
    ⟨fun some => ⟨some, fun kept => absurd kept not⟩, And.left⟩
  by_cases tried : TriesClaim a o
  · obtain ⟨largest, member, fits, log, made⟩ := keepForPool_tried tried
    rw [reached, made] at planned ⊢
    by_cases written : a.claimWrite = 0
    · have kept : KeepsClaim a o := keepsClaim_iff.mpr ⟨tried, written⟩
      simp only [written, ne_eq, not_true_eq_false, if_false] at planned ⊢
      have sized : 0 < (poolWant o.env.nextMemory a.granule).toNat :=
        (argument_valid_of_accepted (rangesetSubtract_rejects a.split) planned).1
      refine ⟨computed, aligned, rfl, (rangesetSubtract_correct normal planned).1, ?_,
        fun _ => ⟨largest, member, fits, sized, if_neg ?_⟩, fun other => absurd kept other⟩
      · refine (cut_nonempty normal member fits planned).trans ?_
        exact ⟨fun more => ⟨List.ne_nil_of_mem member, fun _ => more⟩, fun leaves => leaves.2 kept⟩
      · intro zero
        rw [show poolWant o.env.nextMemory a.granule = 0 from zero] at sized
        exact absurd sized (by decide)
    · have unrecorded : ¬ KeepsClaim a o := fun kept => written (keepsClaim_iff.mp kept).2
      simp only [written, ne_eq, not_false_eq_true, if_true]
      exact ⟨computed, aligned, rfl, normal, unkept unrecorded,
        fun kept => absurd kept unrecorded, fun _ => (if_pos tried).symm⟩
  · obtain ⟨poolClaim, made⟩ := keepForPool_untried tried
    have unrecorded : ¬ KeepsClaim a o := fun kept => tried (keepsClaim_iff.mp kept).1
    rw [reached, made]
    exact ⟨computed, aligned, rfl, normal, unkept unrecorded,
      fun kept => absurd kept unrecorded, fun _ => (if_neg tried).symm⟩

namespace PlanLeaves

variable {a : PlanAnswers} {o after : Ops}

theorem memory (leaves : PlanLeaves a o after) :
    (addresses after.takeable.memory.r).Nonempty := by
  have taken : (a.taken o).2.Exact o.host a.ownRam.2 o.self.reserved o.self.ownCpus :=
    takeableCompute_correct leaves.computed
  obtain ⟨r, member⟩ := List.exists_mem_of_ne_nil _ taken.nonempty
  have sized := taken.normal.nonempty r member
  rw [leaves.takeable]
  exact ⟨r.base.toNat, mem_addresses.mpr ⟨r, member, Nat.le_refl _, by omega⟩⟩

theorem unoffered (leaves : PlanLeaves a o after) (unoffered : LeavesUnoffered a o) :
    addresses after.takeable.memory.r ∩ offered after = ∅ := by
  rw [leaves.takeable, offered, leaves.unrecorded unoffered.1]
  exact unoffered.2

theorem offers (leaves : PlanLeaves a o after) (room : RoomFor o.host a.granule)
    (none : addresses after.takeable.memory.r ∩ offered after = ∅) : LeavesUnoffered a o := by
  have unkept : ¬ KeepsClaim a o := by
    intro kept
    obtain ⟨largest, member, fits, sized, file⟩ := leaves.recorded kept
    obtain ⟨normal, whole⟩ := PlanAnswers.aligned_whole room leaves.computed leaves.aligned
    have claimed := topOf_subset normal member fits
      ⟨Nat.le_refl _, Nat.lt_add_of_pos_right sized⟩
    rw [whole] at claimed
    have both : (topOf largest (poolWant o.env.nextMemory a.granule)).base.toNat ∈
        addresses after.takeable.memory.r ∩ offered after := by
      rw [leaves.takeable, offered, file]
      refine ⟨SpanSets.wholeBlocks_subset _ _ claimed, mem_addresses.mpr ⟨_, List.mem_cons_self, ?_⟩⟩
      exact ⟨Nat.le_refl _, Nat.lt_add_of_pos_right sized⟩
    rw [none] at both
    exact both
  refine ⟨unkept, ?_⟩
  rw [← leaves.unrecorded unkept, ← leaves.takeable]
  exact none

end PlanLeaves

theorem tryDevices_leaves {a : PlanAnswers} {devices : DevicesAnswers} {o after : Ops}
    (leaves : PlanLeaves a (tryDevices devices o) after) : PlanLeaves a o after := by
  unfold tryDevices at leaves
  split at leaves
  · exact leaves
  · exact ⟨leaves.computed, leaves.aligned, leaves.takeable, leaves.normal, leaves.adoptable,
      leaves.recorded, leaves.unrecorded⟩

def Dumped (log : List Effect) (point : ℕ) : Prop :=
  ∃ ranges, .dumpVmcore ranges 0 ∈ log ∧ point ∈ addresses ranges

def DumpFailed (log : List Effect) : Prop :=
  ∃ ranges ret, ret ≠ 0 ∧ .dumpVmcore ranges ret ∈ log

structure AdoptedIn (room : Prop) (c : OpsCtx) (o : Ops) : Prop where
  memory : (addresses o.takeable.memory.r).Nonempty
  preserved : o.preserved.r ≠ [] ↔ LeavesAdoptable c.plan c.ops
  unoffered : LeavesUnoffered c.plan c.ops → addresses o.takeable.memory.r ∩ offered o = ∅
  offers : room → addresses o.takeable.memory.r ∩ offered o = ∅ → LeavesUnoffered c.plan c.ops

theorem opsAdopt_adoptedIn {room : Prop} {c : OpsCtx} (dump : c.ops.env.dumpPath.isSome = true)
    (roomy : room → Roomy c) (done : (opsAdopt (c.answers 0).adopt c.ops).1 = 0) :
    AdoptedIn room c (opsAdopt (c.answers 0).adopt c.ops).2 := by
  have adopted := opsAdopt_adopted (c.answers 0).adopt c.ops
  have leaves : PlanLeaves c.plan c.ops _ :=
    tryDevices_leaves (planAdoption_leaves (adopted.planned done))
  have sameOffer : offered (opsAdopt (c.answers 0).adopt c.ops).2 = offered
      (planAdoption (c.answers 0).adopt.plan (tryDevices (c.answers 0).adopt.devices c.ops)).2 := by
    rw [offered, adopted.file, offered]
  refine ⟨adopted.takeable ▸ leaves.memory, ?_, ?_, ?_⟩
  · rw [adopted.preserved done dump leaves.normal]
    exact leaves.adoptable
  · rw [adopted.takeable, sameOffer]
    exact leaves.unoffered
  · rw [adopted.takeable, sameOffer]
    exact fun hasRoom => leaves.offers (roomy hasRoom 0)

/-- What the preserve step in `c'` made of what the adoption in `c` left. -/
structure PreservedIn (room : Prop) (c c' : OpsCtx) (o : Ops) : Prop where
  memory : (addresses o.takeable.memory.r).Nonempty
  unoffered : LeavesUnoffered c.plan c.ops → addresses o.takeable.memory.r ∩ offered o = ∅
  offers : room → addresses o.takeable.memory.r ∩ offered o = ∅ → LeavesUnoffered c.plan c.ops
  returned : (LeavesAdoptable c.plan c.ops → (opsTakeoverBase.preserve c').1 = (c'.answers 0).dump) ∧
    (¬ LeavesAdoptable c.plan c.ops → (opsTakeoverBase.preserve c').1 = 0)
  dumps : ∀ ranges ret, .dumpVmcore ranges ret ∈ o.log ↔
    LeavesAdoptable c.plan c.ops ∧ ranges = o.takeable.memory.r ∧ ret = (c'.answers 0).dump

section Steps

variable {room : Prop} {c c' : OpsCtx}

theorem AdoptedIn.preserve (adopted : AdoptedIn room c c'.ops) (undumped : Undumped c'.ops) :
    PreservedIn room c c' (opsPreserve (c'.answers 0).dump c'.ops).2 := by
  have result : opsTakeoverBase.preserve c' =
      OpsCtx.call (fun a => opsPreserve a.dump) c' := rfl
  have noDump := undumped.not_dumped
  simp only [OpsCtx.call, opsPreserve_eq _ undumped.configured] at result
  rw [opsPreserve_eq _ undumped.configured]
  by_cases none : c'.ops.preserved.r = []
  · have leavesNone : ¬ LeavesAdoptable c.plan c.ops := fun left => adopted.preserved.mpr left none
    rw [if_pos none] at result ⊢
    refine ⟨adopted.memory, adopted.unoffered, adopted.offers, ⟨fun left => absurd left leavesNone, ?_⟩, ?_⟩
    · intro
      rw [result]
    · intro ranges ret
      exact iff_of_false (noDump ranges ret) fun dumps => leavesNone dumps.1
  · have left := adopted.preserved.mp none
    rw [if_neg none] at result ⊢
    refine ⟨adopted.memory, adopted.unoffered, adopted.offers, ⟨?_, fun other => absurd left other⟩, ?_⟩
    · intro
      rw [result]
    · intro ranges ret
      simp [Ops.note, noDump, left]

theorem PreservedIn.reap {o : Ops} (preserved : PreservedIn room c c' o) (a : OverlayAnswer) :
    PreservedIn room c c' (opsReap a o).2 := by
  simp only [opsReap]
  split
  · exact preserved
  · obtain ⟨new, after, overlays⟩ := applyAdopt_cases a [] o.preserved o
    have noDump (ranges : List Range) (ret : Int) : .dumpVmcore ranges ret ∉ new := by
      intro member
      obtain ⟨-, ⟨overlay, other, impossible⟩, -⟩ := overlays _ member
      simp at impossible
    have dumps : ∀ ranges ret, .dumpVmcore ranges ret ∈ o.log ++ new ↔
        LeavesAdoptable c.plan c.ops ∧ ranges = o.takeable.memory.r ∧ ret = (c'.answers 0).dump := by
      intro ranges ret
      rw [List.mem_append, or_iff_left (noDump ranges ret)]
      exact preserved.dumps ranges ret
    rw [after]
    split
    · exact ⟨preserved.memory, preserved.unoffered, preserved.offers, preserved.returned, dumps⟩
    · exact ⟨preserved.memory, preserved.unoffered, preserved.offers, preserved.returned, dumps⟩

end Steps

structure Awaiting (room : Prop) (ctx : Traced) : Prop where
  undumped : Undumped ctx.1.ops
  roomy : room → Roomy ctx.1
  unpreserved : ∀ c, (.preserve, c) ∉ ctx.2

theorem Awaiting.grows {room : Prop} {ctx : Traced} (awaiting : Awaiting room ctx) {after : Ops}
    (grows : Grows ctx.1.ops after) {op : Op} (other : op ≠ .preserve) :
    Awaiting room (⟨after, fun calls => ctx.1.answers (calls + 1)⟩, ctx.2 ++ [(op, ctx.1)]) := by
  refine ⟨awaiting.undumped.grows grows, fun hasRoom => (awaiting.roomy hasRoom).next grows.host, ?_⟩
  intro c member
  rcases List.mem_append.mp member with old | fresh
  · exact awaiting.unpreserved c old
  · exact other (congrArg Prod.fst (List.mem_singleton.mp fresh)).symm

/-- The one preserve step of the run came right after the adoption in `c`. -/
structure Concluded (room : Prop) (ctx : Traced) (c c' : OpsCtx) (before after : List (Op × OpsCtx)) :
    Prop where
  trace : ctx.2 = before ++ (.adopt, c) :: (.preserve, c') :: after
  unpreserved : ∀ other, (.preserve, other) ∉ before ++ after
  preserved : PreservedIn room c c' ctx.1.ops

theorem Awaiting.preserve {room : Prop} {ctx : Traced} (awaiting : Awaiting room ctx)
    (adopted : ∃ before c, ctx.2 = before ++ [(.adopt, c)] ∧ AdoptedIn room c ctx.1.ops) :
    ∃ c c' before after,
      Concluded room (opsTakeoverBase.traced.preserve ctx).2 c c' before after := by
  obtain ⟨before, c, trace, adopted⟩ := adopted
  refine ⟨c, ctx.1, before, [], ?_, ?_, adopted.preserve awaiting.undumped⟩
  · exact (congrArg (· ++ [(Op.preserve, ctx.1)]) trace).trans (by simp)
  · intro other member
    refine awaiting.unpreserved other ?_
    rw [trace]
    exact List.mem_append_left _ (by simpa using member)

def sparingStages (room : Prop) (retries : UInt32) : Stages opsTakeoverBase.traced retries where
  watching := Awaiting room
  failed _ := Awaiting room
  fenced := Awaiting room
  adopted ctx := Awaiting room ctx ∧
    ∃ before c, ctx.2 = before ++ [(.adopt, c)] ∧ AdoptedIn room c ctx.1.ops
  preserved ctx := ∃ c c' before after, Concluded room ctx c c' before after
  takenOver ctx := ∃ c c' before after, Concluded room ctx c c' before after
  watching_onState _ _ _ held := held
  failed_onState _ _ _ _ held := held
  fenced_onState _ _ _ held := held
  takenOver_onState _ _ _ held := held
  fence_fails attempts ctx ready _ := by
    have awaiting : Awaiting room ctx := ready.elim And.right And.right
    exact awaiting.grows (opsFence_grows _ _) (by simp)
  fence_succeeds attempts ctx ready _ := by
    have awaiting : Awaiting room ctx := ready.elim And.right And.right
    exact awaiting.grows (opsFence_grows _ _) (by simp)
  adopt_fails ctx awaiting _ :=
    awaiting.grows (opsAdopt_grows _ awaiting.undumped.configured) (by simp)
  adopt_succeeds ctx awaiting done :=
    ⟨awaiting.grows (opsAdopt_grows _ awaiting.undumped.configured) (by simp), ctx.2, ctx.1, rfl,
      opsAdopt_adoptedIn awaiting.undumped.configured awaiting.roomy done⟩
  preserve_fails ctx held _ := held.1.preserve held.2
  preserve_succeeds ctx held _ := held.1.preserve held.2
  reap_returns ctx held := by
    obtain ⟨c, c', before, after, trace, unpreserved, preserved⟩ := held
    refine ⟨c, c', before, after ++ [(.reap, ctx.1)], ?_, ?_, preserved.reap _⟩
    · exact (congrArg (· ++ [(Op.reap, ctx.1)]) trace).trans (by simp)
    · intro other member
      exact unpreserved other (by simpa using member)

/-- Nothing of the takeable memory is given away undumped: a preserve step that returned 0 has
dumped all of it, and after a failed dump the claim file offers none of it. -/
def Spared (m : Machine Traced) : Prop :=
  (m.tk.state = .takenOver →
    (∃ c, (.preserve, c) ∈ m.ctx.2 ∧ (opsTakeoverBase.preserve c).1 = 0) →
    ∀ point ∈ addresses m.ctx.1.ops.takeable.memory.r, Dumped m.ctx.1.ops.log point) ∧
  (DumpFailed m.ctx.1.ops.log →
    ∀ point ∈ addresses m.ctx.1.ops.takeable.memory.r ∩ offered m.ctx.1.ops,
      Dumped m.ctx.1.ops.log point)

/-- The adoption that a preserve step follows leaves granules adoptable and, if the dump fails,
nothing takeable on offer. -/
def Spares (trace : List (Op × OpsCtx)) : Prop :=
  ∀ c c', [(.adopt, c), (.preserve, c')] <:+: trace →
    LeavesAdoptable c.plan c.ops ∧ ((c'.answers 0).dump ≠ 0 → LeavesUnoffered c.plan c.ops)

theorem PreservedIn.spared_iff {room : Prop} {c c' : OpsCtx} {m : Machine Traced}
    (state : m.tk.state = .takenOver)
    (only : ∀ other, (.preserve, other) ∈ m.ctx.2 ↔ other = c')
    (preserved : PreservedIn room c c' m.ctx.1.ops) :
    Spared m ↔ LeavesAdoptable c.plan c.ops ∧
      ((c'.answers 0).dump ≠ 0 →
        addresses m.ctx.1.ops.takeable.memory.r ∩ offered m.ctx.1.ops = ∅) := by
  have dumped (point : ℕ) : Dumped m.ctx.1.ops.log point ↔ LeavesAdoptable c.plan c.ops ∧
      (c'.answers 0).dump = 0 ∧ point ∈ addresses m.ctx.1.ops.takeable.memory.r := by
    unfold Dumped
    constructor
    · rintro ⟨ranges, found, inside⟩
      obtain ⟨left, rfl, zero⟩ := (preserved.dumps ranges 0).mp found
      exact ⟨left, zero.symm, inside⟩
    · rintro ⟨left, zero, inside⟩
      exact ⟨_, (preserved.dumps _ 0).mpr ⟨left, rfl, zero.symm⟩, inside⟩
  have failed : DumpFailed m.ctx.1.ops.log ↔
      LeavesAdoptable c.plan c.ops ∧ (c'.answers 0).dump ≠ 0 := by
    unfold DumpFailed
    constructor
    · rintro ⟨ranges, ret, nonzero, found⟩
      obtain ⟨left, -, rfl⟩ := (preserved.dumps ranges ret).mp found
      exact ⟨left, nonzero⟩
    · rintro ⟨left, nonzero⟩
      exact ⟨_, _, nonzero, (preserved.dumps _ _).mpr ⟨left, rfl, rfl⟩⟩
  constructor
  · rintro ⟨all, offers⟩
    have left : LeavesAdoptable c.plan c.ops := by
      by_contra none
      obtain ⟨point, inside⟩ := preserved.memory
      have returned := preserved.returned.2 none
      exact none ((dumped point).mp (all state ⟨c', (only c').mpr rfl, returned⟩ point inside)).1
    refine ⟨left, fun nonzero => ?_⟩
    rw [Set.eq_empty_iff_forall_notMem]
    intro point both
    exact nonzero ((dumped point).mp (offers (failed.mpr ⟨left, nonzero⟩) point both)).2.1
  · rintro ⟨left, unoffered⟩
    constructor
    · rintro - ⟨other, called, returned⟩ point inside
      obtain rfl := (only other).mp called
      exact (dumped point).mpr ⟨left, (preserved.returned.1 left).symm.trans returned, inside⟩
    · intro dumpFailed point both
      rw [unoffered (failed.mp dumpFailed).2] at both
      exact absurd both (Set.notMem_empty point)

theorem infix_pair {α : Type} {x y : α} {l : List α} (found : [x, y] <:+: l) :
    ∃ before after, l = before ++ x :: y :: after := by
  obtain ⟨before, after, rfl⟩ := found
  exact ⟨before, after, by simp⟩

theorem Concluded.pair {room : Prop} {ctx : Traced} {c c' d d' : OpsCtx}
    {before after : List (Op × OpsCtx)} (concluded : Concluded room ctx c c' before after)
    (found : [(.adopt, d), (.preserve, d')] <:+: ctx.2) : d = c ∧ d' = c' := by
  obtain ⟨trace, unpreserved, -⟩ := concluded
  obtain ⟨first, last, same⟩ := infix_pair found
  rw [trace] at same
  have noneBefore : ∀ other, (Op.preserve, other) ∉ before ++ [(.adopt, c)] := by
    intro other member
    refine unpreserved other (List.mem_append_left _ ?_)
    simpa using member
  have split : before ++ [(.adopt, c)] ++ (.preserve, c') :: after =
      first ++ [(.adopt, d)] ++ (.preserve, d') :: last := by simpa using same
  obtain ⟨front, back, -⟩ :=
    (List.append_cons_inj_of_notMem (noneBefore d') fun member =>
      unpreserved d' (List.mem_append_right _ member)).mp split
  have adopts := List.append_inj_right' front rfl
  simp only [List.cons.injEq, Prod.mk.injEq, true_and, and_true] at adopts back
  exact ⟨adopts.symm, back.symm⟩

theorem Awaiting.spares_spared {room : Prop} {m : Machine Traced} (awaiting : Awaiting room m.ctx)
    (notYet : m.tk.state ≠ .takenOver) : Spares m.ctx.2 ∧ Spared m := by
  refine ⟨?_, fun state => absurd state notYet, ?_⟩
  · intro c c' found
    exact absurd (found.subset (by simp)) (awaiting.unpreserved c')
  · rintro ⟨ranges, ret, -, found⟩
    exact absurd found (awaiting.undumped.not_dumped ranges ret)

theorem Concluded.spares_spared {room : Prop} {m : Machine Traced} {c c' : OpsCtx}
    {before after : List (Op × OpsCtx)} (concluded : Concluded room m.ctx c c' before after)
    (state : m.tk.state = .takenOver) :
    (Spares m.ctx.2 → Spared m) ∧ (room → Spared m → Spares m.ctx.2) := by
  have only (other : OpsCtx) : (.preserve, other) ∈ m.ctx.2 ↔ other = c' := by
    have unpreserved := concluded.unpreserved other
    rw [List.mem_append, not_or] at unpreserved
    simp [concluded.trace, unpreserved]
  have spared := concluded.preserved.spared_iff state only
  have found : [(.adopt, c), (.preserve, c')] <:+: m.ctx.2 :=
    ⟨before, after, by simp [concluded.trace]⟩
  constructor
  · intro spares
    obtain ⟨left, unoffered⟩ := spares c c' found
    exact spared.mpr ⟨left, fun failed => concluded.preserved.unoffered (unoffered failed)⟩
  · intro room isSpared d d' pair
    obtain ⟨rfl, rfl⟩ := concluded.pair pair
    obtain ⟨left, none⟩ := spared.mp isSpared
    exact ⟨left, fun failed => concluded.preserved.offers room (none failed)⟩

section Runs

variable (env : OpsEnv) (self : SelfInfo) (host : HostTree) (iommus : List Range)
  (present : DeviceId → Bool) (file : Option Range) (answers : ℕ → Answers)
  (probeTimeouts fenceRetries : UInt32) (events : List TakeoverEvent)

def tracedRun : Machine Traced :=
  takeoverRun opsTakeoverBase.traced
    (takeoverInit (⟨opsInit env self host iommus present file, answers⟩, [])
      probeTimeouts fenceRetries) events

/-- In every run with a dump path the takeable memory is spared if the adoption that the preserve
step follows leaves granules adoptable and, in case the dump fails, nothing on offer; and, unless
there is RAM in the last granule of the address space, only then. -/
theorem opsRun_spared (dump : env.dumpPath.isSome = true) :
    let m := tracedRun env self host iommus present file answers probeTimeouts fenceRetries events
    (Spares m.ctx.2 → Spared m) ∧
      ((∀ n, RoomFor host (answers n).adopt.plan.granule) → Spared m → Spares m.ctx.2) := by
  intro m
  have start : Awaiting (∀ n, RoomFor host (answers n).adopt.plan.granule)
      (⟨opsInit env self host iommus present file, answers⟩, []) :=
    ⟨⟨dump, by simp [opsInit]⟩, id, by simp⟩
  have holds : (sparingStages _ fenceRetries).Holds m :=
    (sparingStages _ fenceRetries).takeoverRun_holds _ probeTimeouts start events
  clear_value m
  have both (done : Spares m.ctx.2 ∧ Spared m) :
      (Spares m.ctx.2 → Spared m) ∧
        ((∀ n, RoomFor host (answers n).adopt.plan.granule) → Spared m → Spares m.ctx.2) :=
    ⟨fun _ => done.2, fun _ _ => done.1⟩
  obtain ⟨-, stage⟩ := holds
  cases state : m.tk.state <;> rw [state] at stage
  · exact both (stage.2.spares_spared (by simp [state]))
  · exact both (stage.2.spares_spared (by simp [state]))
  · exact stage.elim
  · exact both (stage.spares_spared (by simp [state]))
  · exact both (stage.spares_spared (by simp [state]))
  · obtain ⟨c, c', before, after, concluded⟩ := stage
    exact concluded.spares_spared state

end Runs

def sampleRun (next stop : UInt64) (dumped : Int) : Machine Traced :=
  tracedRun { sampleOps.env with nextMemory := next } sampleOps.self
    { sampleOps.host with ram := ⟨[⟨0, stop⟩], 1⟩ } [] (fun _ => false) none (sampleAnswers dumped)
    1 0 [.probeSilent]

/-- The pool takes all that is adoptable and nothing is dumped; or the dump fails and the claim
stays on file. -/
theorem takeable_not_spared :
    (sampleRun 0x1000 0x3000 0).tk.state = .takenOver ∧
      (sampleRun 0x1000 0x3000 0).ctx.1.ops.claimFile = some ⟨0x1000, 0x2000⟩ ∧
      ¬ Spared (sampleRun 0x1000 0x3000 0) ∧
    (sampleRun 0x1000 0x9800 (-ENOSPC)).ctx.1.ops.claimFile = some ⟨0x3000, 0x2000⟩ ∧
      ¬ Spared (sampleRun 0x1000 0x9800 (-ENOSPC)) := by
  refine ⟨by decide, by decide, ?_, by decide, ?_⟩
  · rintro ⟨dumped, -⟩
    have takeable : (sampleRun 0x1000 0x3000 0).ctx.1.ops.takeable.memory.r =
        [⟨0x1000, 0x2000⟩] := by decide
    have log : (sampleRun 0x1000 0x3000 0).ctx.1.ops.log =
        [.fence 0, .setAutoprobe false 0, .setAutoprobe true 0, .poolClaimWrite ⟨0x1000, 0x2000⟩ 0,
          .applyOverlay (.adopt "spare" [1, 2] []) 0] := by decide
    have returned : ∃ call ∈ (sampleRun 0x1000 0x3000 0).ctx.2, call.1 = .preserve ∧
        (opsTakeoverBase.preserve call.2).1 = 0 := by decide
    obtain ⟨⟨op, c⟩, called, rfl, zero⟩ := returned
    obtain ⟨ranges, found, -⟩ := dumped (by decide) ⟨c, called, zero⟩ 0x1000 (by
      rw [takeable, mem_addresses]
      exact ⟨_, List.mem_cons_self, by decide, by decide⟩)
    simp [log] at found
  · rintro ⟨-, offers⟩
    have takeable : (sampleRun 0x1000 0x9800 (-ENOSPC)).ctx.1.ops.takeable.memory.r =
        [⟨0x1000, 0x4000⟩, ⟨0x5800, 0x4000⟩] := by decide
    have file : (sampleRun 0x1000 0x9800 (-ENOSPC)).ctx.1.ops.claimFile =
        some ⟨0x3000, 0x2000⟩ := by decide
    have log : (sampleRun 0x1000 0x9800 (-ENOSPC)).ctx.1.ops.log =
        [.fence 0, .setAutoprobe false 0, .setAutoprobe true 0, .poolClaimWrite ⟨0x3000, 0x2000⟩ 0,
          .applyOverlay (.adopt "spare" [1, 2] []) 0,
          .dumpVmcore [⟨0x1000, 0x4000⟩, ⟨0x5800, 0x4000⟩] (-ENOSPC)] := by decide
    have failed : DumpFailed (sampleRun 0x1000 0x9800 (-ENOSPC)).ctx.1.ops.log :=
      ⟨[⟨0x1000, 0x4000⟩, ⟨0x5800, 0x4000⟩], -ENOSPC, by decide, by simp [log]⟩
    obtain ⟨ranges, found, -⟩ := offers failed 0x3000 (by
      rw [takeable, offered, file]
      exact ⟨mem_addresses.mpr ⟨_, List.mem_cons_self, by decide, by decide⟩,
        mem_addresses.mpr ⟨_, List.mem_cons_self, by decide, by decide⟩⟩)
    rw [log] at found
    simp [ENOSPC] at found

theorem opsRun_spared_no_pool :
    DumpFailed (sampleRun 0 0x9800 (-ENOSPC)).ctx.1.ops.log ∧
      Spared (sampleRun 0 0x9800 (-ENOSPC)) := by
  have log : (sampleRun 0 0x9800 (-ENOSPC)).ctx.1.ops.log =
      [.fence 0, .setAutoprobe false 0, .setAutoprobe true 0,
        .applyOverlay (.adopt "spare" [1, 2] []) 0,
        .dumpVmcore [⟨0x1000, 0x4000⟩, ⟨0x5800, 0x4000⟩] (-ENOSPC)] := by decide
  refine ⟨⟨[⟨0x1000, 0x4000⟩, ⟨0x5800, 0x4000⟩], -ENOSPC, by decide, by simp [log]⟩, ?_⟩
  refine (opsRun_spared _ _ _ _ _ _ _ _ _ _ rfl).1 ?_
  intro c c' found
  have planned : ∀ call ∈ (sampleRun 0 0x9800 (-ENOSPC)).ctx.2, call.1 = .adopt →
      (call.2.plan.aligned call.2.ops).2.r ≠ [] ∧ ¬ KeepsClaim call.2.plan call.2.ops ∧
        call.2.plan.unrecorded call.2.ops = none := by decide
  obtain ⟨some, unkept, none⟩ := planned (.adopt, c) (found.subset (by simp)) rfl
  refine ⟨⟨some, fun kept => absurd kept unkept⟩, fun _ => ⟨unkept, ?_⟩⟩
  simp [none, addresses, spans]

end Kmorph
