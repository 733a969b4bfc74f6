import Kmorph.StandbyCore

/-!
Runs of calls any of which the environment may refuse, and what is undone from the
one it refuses on.
-/

namespace Kmorph

/-! The calls: what the environment refuses changes nothing. -/

section Calls

variable {env : StandbyEnv} {s : Standby} {call : Call} {process : Process}

theorem call_past (env : StandbyEnv) (call : Call) (s : Standby) :
    (env.call call s).2.past = s.past ++ [call] := by
  simp only [StandbyEnv.call]
  split <;> simp [Standby.past]

theorem call_granted (granted : env.answer s.past call = 0) (served : s.process.serve call = .ok process) :
    (env.call call s).1 = 0 ∧ (env.call call s).2.process = process := by
  simp [StandbyEnv.call, granted, served]

theorem call_refused (refused : env.answer s.past call ≠ 0) (noFork : call ≠ .fork) :
    (env.call call s).1 < 0 ∧ (env.call call s).2.process = s.process := by
  simp only [StandbyEnv.call, refused, if_false, and_true]
  exact Int.lt_iff_le_and_ne.mpr ⟨env.errno s.past call noFork, refused⟩

theorem call_keeps (env : StandbyEnv) (call : Call) (s : Standby) :
    (env.call call s).2.process = s.process ∨ s.process.serve call = .ok (env.call call s).2.process := by
  by_cases granted : env.answer s.past call = 0
  · cases served : s.process.serve call with
    | ok process => exact .inr (by rw [(call_granted granted served).2])
    | error ret =>
        left
        simp only [StandbyEnv.call, granted, if_true, served]
  · left
    simp only [StandbyEnv.call, granted, if_false]

theorem call_inert (env : StandbyEnv) (call : Call) (inert : s.process.serve call = .ok s.process) :
    (env.call call s).2.process = s.process := by
  rcases call_keeps env call s with same | served
  · exact same
  · rw [inert] at served
    exact (Except.ok.inj served).symm

theorem call_holds {P : Process → Prop} {call : Call} (keeps : ∀ p p', P p → p.serve call = .ok p' → P p')
    (holds : P s.process) : P (env.call call s).2.process := by
  rcases call_keeps env call s with same | served
  · rw [same]
    exact holds
  · exact keeps _ _ holds served

/-- The run has not come to the fork. -/
def Standby.Unforked (s : Standby) : Prop := .fork ∉ s.past

instance (s : Standby) : Decidable s.Unforked := inferInstanceAs (Decidable (_ ∉ _))

theorem Standby.Unforked.extend {s' : Standby} (unforked : s.Unforked) (other : call ≠ .fork)
    (made : s'.past = s.past ++ [call]) : s'.Unforked := by
  rw [Unforked, made, List.mem_append, not_or]
  exact ⟨unforked, by simpa using Ne.symm other⟩

theorem Standby.Unforked.after (unforked : s.Unforked) (other : call ≠ .fork) :
    (env.call call s).2.Unforked :=
  unforked.extend other (call_past env call s)

/-- The process before the fork. -/
def Standby.At (process : Process) (s : Standby) : Prop := s.process = process ∧ s.Unforked

theorem serve_move (process : Process) (source dest : Path) :
    process.serve (.move source dest) = process.moveMount source dest := rfl

end Calls

def networkCall : Call := .copy netsnapPath STANDBY_NETWORK

/-- Whether the environment lets all of these calls pass, up to the copy that may fail. -/
def StandbyEnv.Granted (env : StandbyEnv) : List Call → List Call → Prop
  | _, [] => True
  | past, call :: rest =>
      (call ≠ networkCall → env.answer past call = 0) ∧ env.Granted (past ++ [call]) rest

/-- The calls that put something back. -/
def Call.undoes (past : List Call) : Call → Bool
  | .umount _ => true
  | .mount _ target _ flags _ => flags = MS_MOVE && pseudoFs.contains target
  | .chdir path => path = ['/'] && past.getLast? ≠ some (.chroot ['.'])
  | _ => false

def StandbyEnv.UndoSucceeds (env : StandbyEnv) : Prop :=
  ∀ past call, call.undoes past = true → env.answer past call = 0

theorem call_undone {env : StandbyEnv} {s : Standby} {call : Call} {process : Process}
    (undo : env.UndoSucceeds) (undoes : call.undoes s.past = true)
    (served : s.process.serve call = .ok process) : (env.call call s).2.process = process :=
  (call_granted (undo _ _ undoes) served).2

/-- A stretch of the run: all of these calls were made, or one was refused and what was done since
then has led to `stopped`. -/
inductive Stretch (env : StandbyEnv) (s : Standby) (calls : List Call) (passed stopped : Standby → Prop)
    (out : Int × Standby) : Prop
  | passed (granted : env.Granted s.past calls) (zero : out.1 = 0) (made : out.2.past = s.past ++ calls)
      (holds : passed out.2)
  | stopped (refused : ¬ env.Granted s.past calls) (negative : out.1 < 0) (holds : stopped out.2)

section Stretches

variable {env : StandbyEnv} {s : Standby} {past calls more : List Call} {call : Call} {process : Process}
  {passed stopped passed' stopped' : Standby → Prop} {out : Int × Standby}

theorem granted_append :
    env.Granted past (calls ++ more) ↔ env.Granted past calls ∧ env.Granted (past ++ calls) more := by
  induction calls generalizing past with
  | nil => simp [StandbyEnv.Granted]
  | cons call calls ih =>
      simp only [List.cons_append, StandbyEnv.Granted, ih, and_assoc]
      simp

theorem refused_append (refused : ¬ env.Granted past calls) : ¬ env.Granted past (calls ++ more) :=
  fun all => refused (granted_append.mp all).1

theorem stretch_call (ordinary : call ≠ networkCall) (noFork : call ≠ .fork)
    (served : s.process.serve call = .ok process)
    (passes : ∀ s', s'.past = s.past ++ [call] → s'.process = process → passed s')
    (stops : ∀ s', s'.past = s.past ++ [call] → s'.process = s.process → stopped s') :
    Stretch env s [call] passed stopped (env.call call s) := by
  have made := call_past env call s
  by_cases granted : env.answer s.past call = 0
  · obtain ⟨zero, after⟩ := call_granted granted served
    exact .passed ⟨fun _ => granted, trivial⟩ zero made (passes _ made after)
  · obtain ⟨negative, after⟩ := call_refused granted noFork
    exact .stopped (fun all => granted (all.1 ordinary)) negative (stops _ made after)

theorem stretch_call_at (ordinary : call ≠ networkCall) (noFork : call ≠ .fork)
    (served : s.process.serve call = .ok process) (unforked : s.Unforked) :
    Stretch env s [call] (Standby.At process) (Standby.At s.process) (env.call call s) :=
  stretch_call ordinary noFork served (fun _ made after => ⟨after, unforked.extend noFork made⟩)
    (fun _ made after => ⟨after, unforked.extend noFork made⟩)

/-- What is undone where a stretch stops, and what follows where it does not. -/
theorem Stretch.elim {motive : Int × Standby → Prop} (first : Stretch env s calls passed stopped out)
    (next : Standby → Int × Standby) (undo : Standby → Standby)
    (stops : ¬ env.Granted s.past calls → ∀ ret s', ret < 0 → stopped s' → motive (ret, undo s'))
    (continues : env.Granted s.past calls → ∀ s', s'.past = s.past ++ calls → passed s' → motive (next s')) :
    motive (if out.1 ≠ 0 then (out.1, undo out.2) else next out.2) := by
  cases first with
  | passed granted zero made holds =>
      rw [if_neg (by simpa using zero)]
      exact continues granted _ made holds
  | stopped refused negative holds =>
      rw [if_pos (by omega)]
      exact stops refused _ _ negative holds

theorem Stretch.andThen (first : Stretch env s calls passed stopped out) (next : Standby → Int × Standby)
    (undo : Standby → Standby) (undone : ∀ s', stopped s' → stopped' (undo s'))
    (continues : ∀ s', s'.past = s.past ++ calls → passed s' →
      Stretch env s' more passed' stopped' (next s')) :
    Stretch env s (calls ++ more) passed' stopped'
      (if out.1 ≠ 0 then (out.1, undo out.2) else next out.2) := by
  apply first.elim next undo
  · intro refused ret s' negative holds
    exact .stopped (refused_append refused) negative (undone _ holds)
  · intro granted s' made holds
    cases continues s' made holds with
    | passed granted' zero made' holds' =>
        refine .passed (granted_append.mpr ⟨granted, made ▸ granted'⟩) zero ?_ holds'
        rw [made', made, List.append_assoc]
    | stopped refused negative holds' =>
        refine .stopped (fun all => refused ?_) negative holds'
        rw [made]
        exact (granted_append.mp all).2

theorem Stretch.undo (first : Stretch env s calls passed stopped out) (undo : Standby → Standby)
    (undone : ∀ s', stopped s' → stopped' (undo s')) :
    Stretch env s calls passed stopped' (if out.1 ≠ 0 then (out.1, undo out.2) else out) := by
  cases first with
  | passed granted zero made holds =>
      rw [if_neg (by simpa using zero)]
      exact .passed granted zero made holds
  | stopped refused negative holds =>
      rw [if_pos (by omega)]
      exact .stopped refused negative (undone _ holds)

end Stretches

end Kmorph
