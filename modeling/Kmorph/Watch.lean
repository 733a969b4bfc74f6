import Kmorph.Collect
import Kmorph.Histories
import Kmorph.WatchCore

/-!
No network change is lost by `kmorph watch`, however the changes come between its
steps, as long as no pass takes a send for done that the instance has since
replaced by one whose reply was lost.
-/

namespace Kmorph

open Histories

variable {inet : Inet} {skip : List (List Char)} {s : Watch}

def lastTaken (id : UInt32) (taken : List Taken) : Option Taken :=
  taken.reverse.find? fun t => t.id = id

theorem lastTaken_append {id : UInt32} {taken : List Taken} {t : Taken} :
    lastTaken id (taken ++ [t]) = if t.id = id then some t else lastTaken id taken := by
  by_cases same : t.id = id <;> simp [lastTaken, same]

/-- With nothing left to read in the first poll after a pass that ended well, the instance of that
pass last accepted the text of the configuration as it is. -/
def Watch.HandedOn (inet : Inet) (skip : List (List Char)) (s : Watch) : Prop :=
  s.point = .waiting → s.ready = false → ∀ links, s.ret = .ok links →
    ∃ links text, netsnapText inet s.config skip NETSNAP_TEXT_MAX = .ok (links, text) ∧
      (lastTaken s.id s.taken).map Taken.text = some text

def WatchPoint.isSending : WatchPoint → Bool
  | .sending _ => true
  | _ => false

/-- The watcher skips a send although the last one the instance accepted was not acknowledged. -/
def Watch.SkipsUnsure (s : Watch) : WatchEvent → Prop
  | .watcher _ => s.point.isSending = true ∧ s.unsent = false ∧
      ∃ t ∈ lastTaken s.id s.taken, t.acked = false
  | .change _ _ => False

instance (s : Watch) : (ev : WatchEvent) → Decidable (s.SkipsUnsure ev)
  | .watcher _ => inferInstanceAs (Decidable (_ ∧ _ ∧ _))
  | .change _ _ => inferInstanceAs (Decidable False)

namespace Watch

def Told (s : Watch) : Prop := s.changed = true → s.ready = true

def Seen (inet : Inet) (skip : List (List Char)) (s : Watch) : Prop :=
  s.changed = false → ∃ links, netsnapText inet s.config skip NETSNAP_TEXT_MAX = .ok (links, s.now)

def Delivered (s : Watch) : Prop := (lastTaken s.id s.taken).map Taken.text = some s.now

/-- What holds where the watcher is; nothing is drained between the snapshot and the first poll. -/
def Current (inet : Inet) (skip : List (List Char)) (s : Watch) : Prop :=
  match s.point with
  | .collecting => s.Told
  | .lookup _ => s.Told ∧ s.Seen inet skip
  | .sending _ => s.Told ∧ s.Seen inet skip ∧ s.id ≠ 0
  | .waiting => s.Told ∧ ∀ links, s.ret = .ok links → s.Seen inet skip ∧ s.Delivered
  | .pass | .draining _ | .settling _ => True

def Acked (s : Watch) : Prop :=
  s.sentTo = 0 ∨ ∃ before after, s.taken = before ++ ⟨s.sentTo, s.sent, true⟩ :: after ∧
    ∀ t ∈ after, t.acked = false

def Invariant (inet : Inet) (skip : List (List Char)) (s : Watch) : Prop :=
  s.Current inet skip ∧ s.Acked

theorem Current.handedOn (current : s.Current inet skip) : s.HandedOn inet skip := by
  intro waiting quiet links ended
  simp only [Current, waiting] at current
  obtain ⟨told, passed⟩ := current
  obtain ⟨seen, delivered⟩ := passed links ended
  have unchanged : s.changed = false := by
    by_contra changed
    simp [told (by simpa using changed)] at quiet
  obtain ⟨links, text⟩ := seen unchanged
  exact ⟨links, s.now, text, delivered⟩

theorem change_invariant (invariant : s.Invariant inet skip) (config : NetMachine) (overrun : Bool) :
    (s.change config overrun).Invariant inet skip := by
  obtain ⟨current, acked⟩ := invariant
  have told : (s.change config overrun).Told := by
    intro _
    cases overrun <;> simp [change, ready]
  have seen : (s.change config overrun).Seen inet skip := by
    intro unchanged
    simp [change] at unchanged
  refine ⟨?_, acked⟩
  unfold Current at current ⊢
  split <;> rename_i point <;> simp only [show s.point = _ from point] at current
  · exact told
  · exact ⟨told, seen⟩
  · exact ⟨told, seen, current.2.2⟩
  · exact ⟨told, fun links ended => ⟨seen, (current.2 links ended).2⟩⟩
  · trivial
  · trivial
  · trivial

theorem wait_error_current (told : s.Told) (errno : Int) :
    (s.wait (.error errno)).Current inet skip :=
  ⟨told, fun _ ended => by cases ended⟩

theorem collect_invariant (told : s.Told) (acked : s.Acked) (a : WatchAnswers) :
    (s.collect inet skip a).Invariant inet skip := by
  unfold collect
  split
  · exact ⟨wait_error_current told _, acked⟩
  · split
    · exact ⟨wait_error_current told _, acked⟩
    · rename_i links text collected
      refine ⟨⟨told, fun unchanged => ⟨links, ?_⟩⟩, acked⟩
      rw [show s.changed = false from unchanged] at collected
      exact collected

theorem Acked.delivered (acked : s.Acked) (other : s.id ≠ 0) (sent : s.unsent = false)
    (sure : ∀ t ∈ lastTaken s.id s.taken, t.acked = true) : s.Delivered := by
  simp only [unsent, ne_eq, decide_not, Bool.or_eq_false_iff, Bool.not_eq_eq_eq_not, Bool.not_false,
    decide_eq_true_eq] at sent
  obtain ⟨sameId, sameText⟩ := sent
  obtain ⟨before, after, taken, unacked⟩ := acked.resolve_left (sameId ▸ other)
  have last : lastTaken s.id s.taken = some ⟨s.sentTo, s.sent, true⟩ := by
    rw [taken] at sure ⊢
    simp only [lastTaken, List.reverse_append, List.reverse_cons, List.append_assoc,
      List.singleton_append, List.find?_append, List.find?_cons, sameId, decide_true] at sure ⊢
    cases later : after.reverse.find? fun t => t.id = s.sentTo with
    | none => rfl
    | some t =>
        have unsure := unacked t (List.mem_reverse.mp (List.mem_of_find?_eq_some later))
        simp [sure t (by simp [later])] at unsure
  rw [Delivered, last, sameText]
  rfl

theorem sendText_ok {text : List Char} {delivery : Delivery} (sent : sendText text delivery = .ok ()) :
    (textRequest text).toOption.isSome = true ∧ delivery.accepted = true := by
  unfold sendText at sent
  cases request : textRequest text with
  | error ret =>
      rw [request] at sent
      cases sent
  | ok bytes =>
      cases answered : delivery.client with
      | error ret =>
          rw [request, answered] at sent
          cases sent
      | ok reply =>
          refine ⟨rfl, delivery.honest reply answered ?_⟩
          by_contra refused
          rw [request, answered] at sent
          simp only [bind, Except.bind, if_pos refused] at sent
          cases sent

theorem Acked.lost (acked : s.Acked) {t : Taken} (unacked : t.acked = false) :
    { s with taken := s.taken ++ [t] }.Acked := by
  refine acked.imp_right ?_
  rintro ⟨before, after, taken, lost⟩
  refine ⟨before, after ++ [t], by simp [taken], ?_⟩
  intro other member
  rcases List.mem_append.mp member with old | new
  · exact lost other old
  · obtain rfl := List.mem_singleton.mp new
    exact unacked

theorem send_invariant (invariant : s.Invariant inet skip) {links : ℕ}
    (sending : s.point = .sending links) (delivery : Delivery)
    (sure : s.unsent = false → ∀ t ∈ lastTaken s.id s.taken, t.acked = true) :
    (s.send links delivery).Invariant inet skip := by
  obtain ⟨current, acked⟩ := invariant
  simp only [Current, sending] at current
  obtain ⟨told, seen, other⟩ := current
  simp only [send]
  split
  · cases sent : sendText s.now delivery with
    | error errno =>
        simp only
        constructor
        · apply wait_error_current
          exact told
        · split
          · exact acked.lost rfl
          · exact acked
    | ok done =>
        obtain ⟨request, accepted⟩ := sendText_ok sent
        simp only [request, accepted, Bool.and_self, if_true]
        refine ⟨⟨told, fun _ _ => ⟨seen, ?_⟩⟩, .inr ⟨s.taken, [], rfl, by simp⟩⟩
        simp [Delivered, wait, lastTaken_append]
  · rename_i skipped
    have skipped : s.unsent = false := by simpa using skipped
    exact ⟨⟨told, fun _ _ => ⟨seen, acked.delivered other skipped (sure skipped)⟩⟩, acked⟩

theorem poll_invariant (invariant : s.Invariant inet skip) (expired : Bool) (settled : Option ℕ) :
    (s.poll expired .pass (.draining settled)).Invariant inet skip := by
  unfold poll
  split
  · exact ⟨trivial, invariant.2⟩
  · split
    · exact ⟨trivial, invariant.2⟩
    · exact invariant

theorem recv_invariant {settled : Option ℕ} (draining : s.point = .draining settled)
    (acked : s.Acked) : (s.recv settled).Invariant inet skip := by
  simp only [recv]
  split
  · exact ⟨trivial, acked⟩
  · split
    · refine ⟨?_, acked⟩
      simp only [Current, draining]
    · exact ⟨trivial, acked⟩

theorem step_invariant (invariant : s.Invariant inet skip) {a : WatchAnswers}
    (sure : ¬ s.SkipsUnsure (.watcher a)) : (s.step inet skip a).Invariant inet skip := by
  obtain ⟨current, acked⟩ := invariant
  simp only [step]
  cases point : s.point with
  | pass => exact ⟨fun changed => by simp at changed, acked⟩
  | collecting =>
      simp only [Current, point] at current
      exact collect_invariant current acked a
  | lookup links =>
      simp only [Current, point] at current
      obtain ⟨told, seen⟩ := current
      cases a.lookup with
      | error errno => exact ⟨wait_error_current told _, acked⟩
      | ok id => exact ⟨⟨told, seen, id.other⟩, acked⟩
  | sending links =>
      refine send_invariant ⟨current, acked⟩ point a.delivery ?_
      intro skipped t last
      by_contra lost
      exact sure ⟨by rw [point]; rfl, skipped, t, last, by simpa using lost⟩
  | waiting => exact poll_invariant ⟨current, acked⟩ _ _
  | draining settled => exact recv_invariant point acked
  | settling settled =>
      simp only
      split
      · exact poll_invariant ⟨current, acked⟩ _ _
      · exact ⟨trivial, acked⟩

theorem invariant_init (config : NetMachine) (id : UInt32) :
    (watchInit config id).Invariant inet skip :=
  ⟨trivial, .inl rfl⟩

end Watch

/-- In every run in which no pass skips a send that may have been replaced, nothing is lost: whenever
the watcher is blocked after a pass without an error, its instance has the current configuration. -/
theorem watchRun_handedOn (inet : Inet) (skip : List (List Char)) (config : NetMachine) (id : UInt32)
    (events : List WatchEvent)
    (sure : Always (fun before ev =>
      ¬ (watchRun inet skip (watchInit config id) before).SkipsUnsure ev) events) :
    (watchRun inet skip (watchInit config id) events).HandedOn inet skip := by
  have invariant : (watchRun inet skip (watchInit config id) events).Invariant inet skip := by
    refine sure.foldl_holds (fun s ev => ¬ s.SkipsUnsure ev) (Watch.Invariant inet skip)
      (Watch.invariant_init config id) ?_
    intro s ev invariant sure
    cases ev with
    | change config overrun => exact Watch.change_invariant invariant config overrun
    | watcher a => exact Watch.step_invariant invariant sure
  exact invariant.1.handedOn

def NetMachine.only (m : NetMachine) (entries : List (List Char)) (listed : entries ⊆ m.fs.entries) :
    NetMachine :=
  { m with
    fs := { m.fs with entries := entries }
    names := fun name member => m.names name (listed member) }

def noPort : NetMachine := (twoPorts "0000:01:00.1".toList).only [] (List.nil_subset _)

def onePort : NetMachine :=
  (twoPorts "0000:01:00.1".toList).only ["eth1".toList]
    fun _ => List.mem_cons_of_mem ".".toList ∘ List.mem_cons_of_mem "eth0".toList

def onePortText : List Char := "link 0000:01:00.1 eth1 52:54:00:12:34:56 1500\n".toList

def watcher (client : Except Int (List Char)) (expired : Bool) : WatchEvent :=
  .watcher ⟨none, noPort, .ok ⟨1, by decide⟩, ⟨true, client, fun _ _ _ => rfl⟩, expired⟩

def ackedPass : List WatchEvent := .replicate 4 (watcher (.ok "ok network\n".toList) false)

def lostPass : List WatchEvent := .replicate 4 (watcher (.error (-ECONNRESET)) false)

def settledChange (config : NetMachine) : List WatchEvent :=
  .change config false :: (.replicate 3 (watcher (.ok []) false) ++ [watcher (.ok []) true])

def portWatch (events : List WatchEvent) : Watch :=
  watchRun textInet [] (watchInit noPort 1)
    (ackedPass ++ settledChange onePort ++ lostPass ++ events)

/-- The reply to a change is lost, and the watcher sends it again. -/
theorem watchRun_handedOn_resent :
    let s := portWatch (watcher (.ok []) true :: ackedPass)
    (s.point = .waiting ∧ s.ready = false ∧ s.ret = .ok 0 ∧
      s.taken = [⟨1, [], true⟩, ⟨1, onePortText, false⟩, ⟨1, onePortText, true⟩]) ∧ s.HandedOn textInet [] := by
  refine ⟨by decide +kernel, ?_⟩
  refine watchRun_handedOn textInet [] _ _ _ ?_
  decide +kernel

/-- The reply to a change is lost and the change undone: the watcher takes its first send for the
last one and waits, and the instance keeps the change. -/
theorem undone_change_lost :
    let s := portWatch (settledChange noPort ++ ackedPass)
    (s.point = .waiting ∧ s.ready = false ∧ s.ret = .ok 0 ∧
      netsnapText textInet s.config [] NETSNAP_TEXT_MAX = .ok (0, []) ∧
      lastTaken s.id s.taken = some ⟨1, onePortText, false⟩) ∧
    ¬ s.HandedOn textInet [] := by
  intro s
  have blocked : s.point = .waiting ∧ s.ready = false ∧ s.ret = .ok 0 ∧
      netsnapText textInet s.config [] NETSNAP_TEXT_MAX = .ok (0, []) ∧
      lastTaken s.id s.taken = some ⟨1, onePortText, false⟩ := by decide +kernel
  refine ⟨blocked, fun handed => ?_⟩
  obtain ⟨waiting, quiet, ended, current, last⟩ := blocked
  obtain ⟨links, text, same, taken⟩ := handed waiting quiet 0 ended
  rw [current] at same
  rw [last] at taken
  cases same
  exact absurd taken (by decide +kernel)

end Kmorph
