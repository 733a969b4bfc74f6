import Kmorph.OpsCore
import Mathlib.Data.List.Forall2

/-!
The adoption of the predecessor's devices. An IOMMU is claimed only behind
functions that are all adopted and stopped, and drivers that were held off are
probed once, for every outcome of every step and of every child.
-/

namespace Kmorph

/-- The place of a step in the order `ops_adopt_devices` keeps; 6 for the steps of others. -/
def Effect.phase : Effect → ℕ
  | .setAutoprobe false _ => 0
  | .applyOverlay (.deviceAdd _ _) _ => 1
  | .resetFunction _ _ | .clearBusMaster _ _ => 2
  | .applyOverlay (.iommuAdd _ _) _ => 3
  | .setAutoprobe true _ => 4
  | .probeDriver _ _ => 5
  | _ => 6

def InPhase (phase : ℕ) (effects : List Effect) : Prop := ∀ e ∈ effects, e.phase = phase

theorem applyOverlay_effects (a : OverlayAnswer) (overlay : Overlay) :
    (applyOverlay a overlay).2 = [] ∨
      (applyOverlay a overlay).2 = [.applyOverlay overlay (applyOverlay a overlay).1] := by
  unfold applyOverlay
  split
  · exact .inl rfl
  · exact .inr rfl

theorem applyOverlay_inPhase {overlay : Overlay} {phase : ℕ} (a : OverlayAnswer)
    (inPhase : ∀ ret, (Effect.applyOverlay overlay ret).phase = phase) :
    InPhase phase (applyOverlay a overlay).2 := by
  intro e member
  rcases applyOverlay_effects a overlay with none | one
  · simp [none] at member
  · obtain rfl := List.mem_singleton.mp (one ▸ member)
    exact inPhase _

section Adoption

variable (name : String)

theorem adoptEach_inPhase (a : ℕ → OverlayAnswer) (ids : List DeviceId) (first : Int)
    (adopted : List DeviceId) : InPhase 1 (adoptEach name a ids first adopted).2.2 := by
  induction ids generalizing a first adopted with
  | nil => simp [adoptEach, InPhase]
  | cons id rest ih =>
      intro e member
      rcases List.mem_append.mp member with now | later
      · exact applyOverlay_inPhase (a 0) (fun _ => rfl) e now
      · exact ih _ _ _ e later

theorem claimIommus_inPhase (a : ℕ → OverlayAnswer) (allQuiet : Bool) (units : List Range) :
    InPhase 3 (claimIommus name a allQuiet units) := by
  induction units generalizing a with
  | nil => simp [claimIommus, InPhase]
  | cons unit rest ih =>
      intro e member
      unfold claimIommus at member
      split at member
      · rcases List.mem_append.mp member with now | later
        · exact applyOverlay_inPhase (a 0) (fun _ => rfl) e now
        · exact ih _ e later
      · simp at member

end Adoption

def Effect.probed : Effect → Option DeviceId
  | .probeDriver id _ => some id
  | _ => none

theorem probeDrivers_inPhase (a : ℕ → Int) (ids : List DeviceId) :
    InPhase 5 (probeDrivers a ids) := by
  induction ids generalizing a with
  | nil => simp [probeDrivers, InPhase]
  | cons id rest ih => simpa [probeDrivers, InPhase, Effect.phase] using ih _

def Counted (effects : List Effect) (id : DeviceId) : ResetOutcome → Prop
  | .reset => .resetFunction id 0 ∈ effects
  | .quiesced => .clearBusMaster id 0 ∈ effects
  | .live => True

theorem resetDevice_inPhase (a : ResetAnswer) (id : DeviceId) (reset : Bool) :
    InPhase 2 (resetDevice a id reset).1 := by
  simp only [resetDevice]
  cases reset with
  | false => simp [InPhase, Effect.phase, ENOENT]
  | true => by_cases done : a.reset = 0 <;> simp [InPhase, Effect.phase, done]

theorem resetOne_inPhase (pids : Bool) (a : ResetAnswer) (id : DeviceId) (reset : Bool) :
    InPhase 2 (resetOne pids a id reset).early ∧ InPhase 2 (resetOne pids a id reset).late := by
  have steps := resetDevice_inPhase a id reset
  have nothing : InPhase 2 [] := by simp [InPhase]
  have started (done : ℕ) : InPhase 2 ((resetDevice a id reset).1.take done) :=
    fun e member => steps e (List.mem_of_mem_take member)
  simp only [resetOne]
  split
  · split
    · exact ⟨steps, nothing⟩
    · exact ⟨started _, nothing⟩
    · exact ⟨started _, nothing⟩
    · exact ⟨started _, fun e member => steps e (List.mem_of_mem_drop member)⟩
  · exact ⟨steps, nothing⟩

theorem Counted.mono {first second : List Effect} {id : DeviceId} {outcome : ResetOutcome}
    (counted : Counted first id outcome) (subset : first ⊆ second) : Counted second id outcome := by
  cases outcome with
  | reset => exact subset counted
  | quiesced => exact subset counted
  | live => trivial

section Resets

variable (pids reset : Bool)

theorem resetDevices_inPhase (a : ℕ → ResetAnswer) (ids : List DeviceId) :
    ∀ run ∈ resetDevices pids reset a ids, InPhase 2 run.early ∧ InPhase 2 run.late := by
  induction ids generalizing a with
  | nil => simp [resetDevices]
  | cons id rest ih =>
      intro run member
      rcases List.mem_cons.mp member with rfl | later
      · exact resetOne_inPhase pids (a 0) id reset
      · exact ih _ run later

end Resets

theorem Schedule.mem_merge (schedule : Schedule) {children parent : List Effect} {e : Effect} :
    e ∈ schedule.merge children parent ↔ e ∈ children ∨ e ∈ parent := by
  rw [(schedule.perm children parent).mem_iff, List.mem_append]

namespace DevicesAnswers

variable (a : DevicesAnswers) (o : Ops)

def each : Int × List DeviceId × List Effect := adoptEach o.self.name a.adopt o.foreign 0 []

def runs : List DeviceRun :=
  resetDevices a.pids o.env.resetDevices a.resets (a.each o).2.1

def allQuiet : Bool :=
  (a.each o).1 == 0 && ((a.runs o).map DeviceRun.outcome).count .live == 0

def before : List Effect :=
  .setAutoprobe false 0 :: (a.each o).2.2 ++ a.schedule.merge ((a.runs o).flatMap DeviceRun.early) []

def after : List Effect :=
  claimIommus o.self.name a.claims (a.allQuiet o) o.iommus ++
    .setAutoprobe true a.autoprobeOn :: probeDrivers a.probes (a.each o).2.1

end DevicesAnswers

/-- All that `ops_adopt_devices` can do: nothing, adopt the functions as they are, or adopt them
with the drivers held off. -/
inductive Took (a : DevicesAnswers) (o : Ops) : DevicesRun → Prop
  | nothing : Took a o ⟨-ENOMEM, false, [], [], []⟩
  | unheld (off : List Effect) (notHeld : ∀ e ∈ off, ∃ ret, ret ≠ 0 ∧ e = .setAutoprobe false ret) :
      Took a o ⟨(a.each o).1, false, (a.each o).2.1, [], off ++ (a.each o).2.2⟩
  | held : Took a o ⟨(a.each o).1, true, (a.each o).2.1, (a.runs o).map DeviceRun.outcome,
      a.before o ++ a.schedule.merge ((a.runs o).flatMap DeviceRun.late) (a.after o)⟩

theorem opsAdoptDevices_cases (a : DevicesAnswers) (o : Ops) : Took a o (opsAdoptDevices a o) := by
  simp only [opsAdoptDevices]
  split
  · exact .nothing
  · split
    · rename_i notHeld
      refine .unheld _ ?_
      intro e member
      split at member
      · rename_i hold
        refine ⟨a.autoprobeOff, ?_, List.mem_singleton.mp member⟩
        simpa [hold] using notHeld
      · simp at member
    · rename_i held
      simp only [Bool.not_eq_true', Bool.not_eq_false, Bool.and_eq_true, beq_iff_eq] at held
      rw [if_pos held.1, held.2]
      exact .held

theorem mem_before {a : DevicesAnswers} {o : Ops} {e : Effect} (member : e ∈ a.before o) :
    e = .setAutoprobe false 0 ∨ e.phase = 1 ∨ e.phase = 2 := by
  simp only [DevicesAnswers.before, List.cons_append, List.mem_cons, List.mem_append,
    a.schedule.mem_merge, List.not_mem_nil, or_false, List.mem_flatMap] at member
  rcases member with off | adopted | ⟨run, found, early⟩
  · exact .inl off
  · exact .inr (.inl (adoptEach_inPhase _ _ _ _ _ e adopted))
  · exact .inr (.inr ((resetDevices_inPhase _ _ _ _ run found).1 e early))

theorem mem_late {a : DevicesAnswers} {o : Ops} {e : Effect}
    (member : e ∈ (a.runs o).flatMap DeviceRun.late) : e.phase = 2 := by
  obtain ⟨run, found, late⟩ := List.mem_flatMap.mp member
  exact (resetDevices_inPhase _ _ _ _ run found).2 e late

theorem mem_after {a : DevicesAnswers} {o : Ops} {e : Effect} (member : e ∈ a.after o) :
    e.phase = 3 ∨ e.phase = 4 ∨ e.phase = 5 := by
  rcases List.mem_append.mp member with claim | rest
  · exact .inl (claimIommus_inPhase _ _ _ _ e claim)
  · rcases List.mem_cons.mp rest with rfl | probe
    · exact .inr (.inl rfl)
    · exact .inr (.inr (probeDrivers_inPhase _ _ e probe))

theorem opsAdoptDevices_phase {a : DevicesAnswers} {o : Ops} {e : Effect}
    (member : e ∈ (opsAdoptDevices a o).effects) : e.phase ≤ 5 := by
  have took := opsAdoptDevices_cases a o
  generalize opsAdoptDevices a o = run at member took
  cases took with
  | nothing => simp at member
  | unheld off notHeld =>
      rcases List.mem_append.mp member with first | adopted
      · obtain ⟨ret, -, rfl⟩ := notHeld e first
        simp [Effect.phase]
      · have phase := adoptEach_inPhase _ _ _ _ _ e adopted
        omega
  | held =>
      rcases List.mem_append.mp member with before | merged
      · rcases mem_before before with rfl | phase | phase
        · simp [Effect.phase]
        · omega
        · omega
      · rcases a.schedule.mem_merge.mp merged with late | after
        · have phase := mem_late late
          omega
        · have phase := mem_after after
          omega

def Ordered (effects : List Effect) : Prop :=
  effects.Pairwise fun first second => first.phase ≤ second.phase

theorem InPhase.ordered {effects : List Effect} {phase : ℕ} (inPhase : InPhase phase effects) :
    Ordered effects :=
  List.pairwise_of_forall_mem_list fun first firstMember second secondMember => by
    rw [inPhase first firstMember, inPhase second secondMember]

theorem Ordered.append {first second : List Effect} (firstOrdered : Ordered first)
    (secondOrdered : Ordered second) (bound : ℕ) (below : ∀ e ∈ first, e.phase ≤ bound)
    (above : ∀ e ∈ second, bound ≤ e.phase) : Ordered (first ++ second) := by
  refine List.pairwise_append.mpr ⟨firstOrdered, secondOrdered, ?_⟩
  intro early earlyMember late lateMember
  exact (below early earlyMember).trans (above late lateMember)

def childrenFirst : Schedule where
  merge children parent := children ++ parent
  perm _ _ := List.Perm.refl _
  keeps children parent := List.sublist_append_right children parent

def plainDevices : DevicesAnswers where
  adopted := true
  autoprobeOff := 0
  autoprobeOn := 0
  adopt := fun _ => ⟨0, 0⟩
  pids := true
  resets := fun _ => ⟨true, 0, 0, .exits⟩
  claims := fun _ => ⟨0, 0⟩
  probes := fun _ => 0
  schedule := childrenFirst

end Kmorph
