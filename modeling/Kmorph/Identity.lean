import Kmorph.Handover
import Kmorph.PoolClaims

/-!
The network identity of `kmorphd` over every run: which one is stored, which one is
applied at the takeover, and which one a restarted `kmorphd` loads.
-/

namespace Kmorph

variable {σ : Type} {ops : DaemonOps σ} {d d' d'' : Daemon σ}

/-- The text of a network request. -/
def networkText : Event → Option (List Char)
  | .connection true input _ =>
      match readRequest REQUEST_MAX none [] input with
      | .ok (.network, payload) => some (cString payload)
      | _ => none
  | _ => none

/-- What every op and `dump_path = NULL` keep of the context holds in `d'` if it held in `d`. -/
def Keeps (ops : DaemonOps σ) (d d' : Daemon σ) : Prop :=
  ∀ P, OpsClosed ops.toTakeoverOps P → (∀ ctx, P ctx → P (ops.dropDump ctx)) →
    P d.machine.ctx.1 → P d'.machine.ctx.1

theorem Keeps.refl (d : Daemon σ) : Keeps ops d d := fun _ _ _ held => held

theorem Keeps.trans (first : Keeps ops d d') (second : Keeps ops d' d'') : Keeps ops d d'' :=
  fun P closed drop held => second P closed drop (first P closed drop held)

theorem Keeps.of_machine (same : d'.machine.ctx.1 = d.machine.ctx.1) : Keeps ops d d' :=
  fun _ _ _ held => same ▸ held

theorem handle_keeps (ev : TakeoverEvent) (d : Daemon σ) : Keeps ops d (d.handle ops ev) :=
  fun _ closed _ held => closed.watched.takeoverHandle held ev

theorem deliverProbe_keeps (probe : ℕ) (err : Int) (now : UInt64) (d : Daemon σ) :
    Keeps ops d (deliverProbe ops probe err now d) := by
  have recorded : Keeps ops d (recordProbe probe err now d) :=
    .of_machine (by rw [recordProbe_machine]; rfl)
  unfold deliverProbe
  cases probeClassify err with
  | alive => exact recorded.trans (handle_keeps _ _)
  | silent => exact recorded.trans (handle_keeps _ _)
  | error => exact recorded

theorem onTick_keeps (tick : Tick) (d : Daemon σ) : Keeps ops d (onTick ops tick d) := by
  have timedOut : Keeps ops d (timeoutPending ops tick.now d) := by
    unfold timeoutPending
    split
    · exact deliverProbe_keeps _ _ _ { d with probeFd := -1 }
    · exact .refl d
  have numbered (d : Daemon σ) : Keeps ops d (numberProbe d) := .of_machine rfl
  have started (d : Daemon σ) : Keeps ops d (startProbe ops tick d) := by
    simp only [startProbe]
    split
    · exact (numbered d).trans (deliverProbe_keeps _ _ _ _)
    · split
      · exact (numbered d).trans (deliverProbe_keeps _ _ _ _)
      · exact numbered d
  unfold onTick
  split
  · exact .refl d
  · split
    · exact .refl d
    · exact timedOut.trans (started _)

theorem send_keeps (d : Daemon σ) (reply : Except Int String) : Keeps ops d (d.send reply) := by
  cases reply <;> exact .of_machine rfl

theorem takeHandover_keeps (d : Daemon σ) : Keeps ops d (takeHandover ops d) := by
  have granting : Keeps ops d (granted ops d) := fun P _ drop held => drop _ held
  rw [takeHandover_eq]
  exact granting.trans (handle_keeps _ _)

/-- The reply that says a network identity was taken. -/
def NETWORK_OK : Obs := .reply "ok network\n"

/-- The daemon as a network request that is taken leaves it. -/
def Daemon.storing (next : σ) (d : Daemon σ) : Daemon σ :=
  Daemon.note NETWORK_OK { d with machine := { d.machine with ctx := (next, d.history) } }

/-- What a step does to the network identity: a request in a state before FENCING whose text parses
stores it, and any other step leaves it and answers no network request with `ok`. -/
inductive Stores (ops : DaemonOps σ) (d : Daemon σ) (ev : Event) (d' : Daemon σ) : Prop
  | taken (text : List Char) (next : σ) : networkText ev = some text →
      d.tk.state.begun = false → ops.takeNetwork text d.machine.ctx.1 = some next →
      d' = d.storing next → Stores ops d ev d'
  | kept : Keeps ops d d' →
      (∀ text, networkText ev = some text → NETWORK_OK ∉ d'.history.drop d.history.length ∧
        (d.tk.state.begun = true ∨ ops.takeNetwork text d.machine.ctx.1 = none)) →
      Stores ops d ev d'

theorem answerNetwork_stores (text : List Char) (d : Daemon σ) :
    (∃ next, d.tk.state.begun = false ∧ ops.takeNetwork text d.machine.ctx.1 = some next ∧
      (answerNetwork ops text REPLY_MAX d).1.send (answerNetwork ops text REPLY_MAX d).2 =
        d.storing next) ∨
    ∃ reason, answerNetwork ops text REPLY_MAX d =
        (d, requestFormatNetworkReply (some reason) REPLY_MAX) ∧
      (d.tk.state.begun = true ∨ ops.takeNetwork text d.machine.ctx.1 = none) := by
  unfold answerNetwork
  split
  · rename_i late
    exact .inr ⟨_, rfl, .inl (TakeoverState.rank_of_begun.mp late)⟩
  · rename_i early
    have watching : d.tk.state.begun = false := by
      simpa using mt TakeoverState.rank_of_begun.mpr early
    split
    · rename_i malformed
      exact .inr ⟨_, rfl, .inr malformed⟩
    · rename_i next taken
      exact .inl ⟨next, watching, taken, rfl⟩

theorem send_refusal {reason : String} {len : ℕ} (d : Daemon σ) :
    NETWORK_OK ∉ (d.send (requestFormatNetworkReply (some reason) len)).history.drop
      d.history.length := by
  unfold Daemon.send
  split
  · rename_i text sent
    have same : "refused " ++ reason ++ "\n" = text := eq_of_formatted sent
    rw [note_history, List.drop_left, NETWORK_OK, ← same]
    simp only [List.mem_singleton, Obs.reply.injEq]
    intro ok
    have first := congrArg (fun text : String => text.toList.head?) ok
    simp [String.toList_append] at first
  · simp

theorem networkText_connection {input : List Recv} {now : UInt64} {text : List Char} :
    networkText (.connection true input now) = some text ↔
      ∃ payload, readRequest REQUEST_MAX none [] input = .ok (.network, payload) ∧
        cString payload = text := by
  simp only [networkText]
  split
  · rename_i payload request
    simp [request]
  · rename_i other
    simp only [reduceCtorEq, false_iff, not_exists, not_and]
    intro payload request
    exact absurd request (other payload)

theorem answerRequest_keeps {input : List Recv} (now : UInt64) (d : Daemon σ)
    (other : ∀ payload, readRequest REQUEST_MAX none [] input ≠ .ok (.network, payload)) :
    Keeps ops d (answerRequest ops input now d).2 := by
  unfold answerRequest
  split
  · split
    · exact .refl d
    · exact send_keeps d _
  · exact send_keeps d _
  · rename_i payload request
    exact absurd request (other payload)
  · simp only
    exact send_keeps d _

theorem onConnection_keeps {input : List Recv} (now : UInt64) (d : Daemon σ)
    (other : ∀ payload, readRequest REQUEST_MAX none [] input ≠ .ok (.network, payload)) :
    Keeps ops d (onConnection ops input now d) := by
  have answered : Keeps ops d (answerRequest ops input now d).2 := answerRequest_keeps now d other
  simp only [onConnection]
  split
  · exact answered.trans (takeHandover_keeps _)
  · exact answered

theorem onConnection_network {input : List Recv} {payload : List Char} (now : UInt64)
    (d : Daemon σ) (request : readRequest REQUEST_MAX none [] input = .ok (.network, payload)) :
    onConnection ops input now d = (answerNetwork ops (cString payload) REPLY_MAX d).1.send
      (answerNetwork ops (cString payload) REPLY_MAX d).2 := by
  simp only [onConnection, answerRequest, request, Bool.false_eq_true, if_false]

theorem onConnection_stores (ops : DaemonOps σ) (d : Daemon σ) (input : List Recv) (now : UInt64) :
    Stores ops d (.connection true input now) (onConnection ops input now d) := by
  by_cases asked : ∃ payload, readRequest REQUEST_MAX none [] input = .ok (.network, payload)
  · obtain ⟨payload, request⟩ := asked
    rw [onConnection_network now d request]
    rcases answerNetwork_stores (cString payload) d with
      ⟨next, watching, taken, stored⟩ | ⟨reason, refused, why⟩
    · exact .taken _ next (networkText_connection.mpr ⟨payload, request, rfl⟩) watching taken stored
    · rw [refused]
      refine .kept (send_keeps d _) fun text found => ⟨send_refusal d, ?_⟩
      obtain ⟨payload', again, rfl⟩ := networkText_connection.mp found
      rw [request] at again
      cases again
      exact why
  · rw [not_exists] at asked
    refine .kept (onConnection_keeps now d asked) ?_
    intro text found
    obtain ⟨payload, request, -⟩ := networkText_connection.mp found
    exact absurd request (asked payload)

theorem daemonStep_stores (ops : DaemonOps σ) (d : Daemon σ) (ev : Event) :
    Stores ops d ev (daemonStep ops d ev) := by
  cases ev with
  | tick tick => exact .kept (onTick_keeps tick d) (by simp [networkText])
  | probeReady err now =>
      refine .kept ?_ (by simp [networkText])
      simp only [daemonStep]
      split
      · exact deliverProbe_keeps _ _ _ { d with probeFd := -1 }
      · exact .refl d
  | connection accepted input now =>
      cases accepted with
      | false => exact .kept (.refl d) (by simp [networkText])
      | true => exact onConnection_stores ops d input now

variable {inet : Inet} {k : Kmorphd}

/-- The ops know whether there is an identity, and it is applied once, with the devices. -/
structure Pointed (k : Kmorphd) : Prop where
  known : k.ops.ops.env.network = k.network.isSome
  applied : k.applied = if k.ops.ops.devicesTried then k.network.toList else []

/-- What the ops other than `adopt` leave alone. -/
def Untouched (o after : Ops) : Prop :=
  after.env = o.env ∧ after.devicesTried = o.devicesTried

theorem applyAdopt_untouched (a : OverlayAnswer) (cpus : List UInt64) (memory : Rangeset) (o : Ops) :
    Untouched o (applyAdopt a cpus memory o).2 := by
  obtain ⟨new, after, -⟩ := applyAdopt_cases a cpus memory o
  rw [after]
  exact ⟨rfl, rfl⟩

theorem opsPreserve_untouched (dumped : Int) (o : Ops) : Untouched o (opsPreserve dumped o).2 := by
  unfold opsPreserve
  split
  · exact ⟨rfl, rfl⟩
  · exact ⟨rfl, rfl⟩

theorem opsReap_untouched (a : OverlayAnswer) (o : Ops) : Untouched o (opsReap a o).2 := by
  have applied := applyAdopt_untouched a [] o.preserved o
  simp only [opsReap]
  split
  · exact ⟨rfl, rfl⟩
  · split
    · exact applied
    · exact applied

theorem planAdoption_devicesTried (a : PlanAnswers) (o : Ops) :
    (planAdoption a o).2.devicesTried = o.devicesTried := by
  rcases planAdoption_cases a o with ⟨-, takeable, adoptable, planned⟩ | ⟨-, -, reached⟩
  · rw [planned]
  · obtain ⟨poolClaim, claimFile, adoptable, log, frame⟩ := (keepForPool_cases a a.granule
      { o with takeable := (a.taken o).2, adoptable := (a.aligned o).2 }).frame
    rw [reached, frame]

theorem opsAdopt_devicesTried (a : AdoptAnswers) (o : Ops) :
    (opsAdopt a o).2.devicesTried = true := by
  have tried : (planAdoption a.plan (tryDevices a.devices o)).2.devicesTried = true := by
    rw [planAdoption_devicesTried]
    unfold tryDevices
    split
    · assumption
    · rfl
  simp only [opsAdopt]
  generalize planAdoption a.plan (tryDevices a.devices o) = plan at tried ⊢
  split
  · exact tried
  · split
    · split
      · exact tried
      · rw [(applyAdopt_untouched _ _ _ _).2]
        exact tried
    · rw [(applyAdopt_untouched _ _ _ _).2]
      exact tried

theorem Pointed.call (pointed : Pointed k) {op : OpsCtx → Int × OpsCtx}
    (untouched : Untouched k.ops.ops (op k.ops).2.ops) : Pointed (k.call op).2 := by
  obtain ⟨env, tried⟩ := untouched
  refine ⟨?_, ?_⟩
  · show (op k.ops).2.ops.env.network = k.network.isSome
    rw [env]
    exact pointed.known
  · show k.applied = if (op k.ops).2.ops.devicesTried then k.network.toList else []
    rw [tried]
    exact pointed.applied

theorem adopt_devicesTried (k : Kmorphd) : k.adopt.2.ops.ops.devicesTried = true :=
  opsAdopt_devicesTried _ _

theorem Pointed.adopt (pointed : Pointed k) : Pointed k.adopt.2 := by
  refine ⟨?_, ?_⟩
  · show (opsAdopt (k.ops.answers 0).adopt k.ops.ops).2.env.network = k.network.isSome
    rw [(opsAdopt_adopted _ _).env]
    exact pointed.known
  · rw [adopt_devicesTried, if_pos rfl]
    show (if k.restores then k.applied ++ k.network.toList else k.applied) = k.network.toList
    rw [pointed.applied, Kmorphd.restores, pointed.known]
    cases k.ops.ops.devicesTried <;> cases k.network <;> simp

/-- The identity has been applied, if there is one. -/
structure Restored (k : Kmorphd) : Prop extends Pointed k where
  tried : k.ops.ops.devicesTried = true

theorem Restored.call (restored : Restored k) {op : OpsCtx → Int × OpsCtx}
    (untouched : Untouched k.ops.ops (op k.ops).2.ops) : Restored (k.call op).2 :=
  ⟨restored.toPointed.call untouched, untouched.2.trans restored.tried⟩

def pointedStages (inet : Inet) (retries : UInt32) : Stages (kmorphdOps inet).watched retries where
  watching ctx := Pointed ctx.1 ∧ ctx.1.ops.ops.devicesTried = false
  failed _ ctx := Pointed ctx.1
  fenced ctx := Pointed ctx.1
  adopted ctx := Restored ctx.1
  preserved ctx := Restored ctx.1
  takenOver ctx := Restored ctx.1
  watching_onState _ _ _ held := held
  failed_onState _ _ _ _ held := held
  fenced_onState _ _ _ held := held
  takenOver_onState _ _ _ held := held
  fence_fails attempts ctx ready _ := by
    have pointed : Pointed ctx.1 := ready.elim (fun early => early.2.1) And.right
    exact pointed.call ⟨rfl, rfl⟩
  fence_succeeds attempts ctx ready _ := by
    have pointed : Pointed ctx.1 := ready.elim (fun early => early.2.1) And.right
    exact pointed.call ⟨rfl, rfl⟩
  adopt_fails ctx pointed _ := pointed.adopt
  adopt_succeeds ctx pointed _ := ⟨pointed.adopt, adopt_devicesTried ctx.1⟩
  preserve_fails ctx restored _ := restored.call (opsPreserve_untouched _ _)
  preserve_succeeds ctx restored _ := restored.call (opsPreserve_untouched _ _)
  reap_returns ctx restored := restored.call (opsReap_untouched _ _)

theorem takeoverHandle_request_begun {ops : TakeoverOps σ} {m : Machine σ}
    (armed : m.tk.state = .armed) : (takeoverHandle ops m .request).tk.state.begun = true := by
  obtain ⟨state, ret, tk, begun⟩ := beginTakeover_tk ops m
  rw [takeoverHandle_request armed, tk]
  exact begun

theorem takeoverHandle_begun (ops : DaemonOps σ) {m : Machine (σ × List Obs)}
    (begun : m.tk.state.begun = true) (ev : TakeoverEvent) :
    (takeoverHandle ops.watched m ev).tk.state.begun = true := by
  obtain ⟨new, -, round⟩ := takeoverHandle_round (watched_logs ops) m ev
  exact round.begun.mpr (.inl begun)

theorem Pointed.storeNetwork (untried : k.ops.ops.devicesTried = false) (pointed : Pointed k)
    (text : List Char) (snap : Netsnap) : Pointed (k.storeNetwork text snap) := by
  refine ⟨rfl, ?_⟩
  have unapplied := pointed.applied
  rw [untried] at unapplied
  show k.applied = if k.ops.ops.devicesTried then _ else []
  rw [unapplied, untried]
  rfl

def pointedRule (inet : Inet) (retries : UInt32) : DaemonRule (kmorphdOps inet) where
  holds handed m := (pointedStages inet retries).Holds m ∧ (handed = true → m.tk.state.begun = true)
  bears _ _ := True
  bears_fresh _ := trivial
  begun m holds := holds.2 rfl
  note _ _ _ _ _ holds := holds
  probe handed m ev _ _ holds := by
    exact ⟨(pointedStages inet retries).takeoverHandle_holds holds.1 ev,
      fun was => takeoverHandle_begun _ (holds.2 was) ev⟩
  network handed tk k history text next watching taken holds := by
    obtain ⟨snap, -, rfl⟩ := takeNetwork_eq_some.mp taken
    obtain ⟨sameRetries, attempts, pointed, untried⟩ :=
      (Stages.holds_watching_iff watching).mp holds.1
    exact ⟨(Stages.holds_watching_iff watching).mpr
      ⟨sameRetries, attempts, pointed.storeNetwork untried text snap, untried⟩, holds.2⟩
  handover tk k history armed holds := by
    have watching : tk.state.begun = false := TakeoverState.begun_eq_false_iff.mpr (.inl armed)
    obtain ⟨sameRetries, attempts, pointed, untried⟩ :=
      (Stages.holds_watching_iff watching).mp holds.1
    refine ⟨(pointedStages inet retries).takeoverHandle_holds ?_ _,
      fun _ => takeoverHandle_request_begun armed⟩
    exact (Stages.holds_watching_iff watching).mpr
      ⟨sameRetries, attempts, ⟨pointed.known, pointed.applied⟩, untried⟩

theorem pointedRule_pointed {retries : UInt32} {d : Daemon Kmorphd}
    (holds : (pointedRule inet retries).Holds d) : Pointed d.machine.ctx.1 := by
  obtain ⟨⟨-, stage⟩, -⟩ := holds
  split at stage
  · exact stage.2.1
  · exact stage.2.1
  · exact stage.elim
  · exact stage
  · exact stage
  · exact stage.toPointed

theorem pointedRule_takenOver {retries : UInt32} {d : Daemon Kmorphd}
    (holds : (pointedRule inet retries).Holds d) (takenOver : d.tk.state = .takenOver) :
    d.machine.ctx.1.ops.ops.devicesTried = true := by
  obtain ⟨⟨-, stage⟩, -⟩ := holds
  rw [show d.machine.tk.state = .takenOver from takenOver] at stage
  exact stage.tried

/-- The stored identity with its copy in the standby network file and the results of the writes. -/
structure Identity where
  network : Option Netsnap
  standby : Option (List Char)
  stored : List Int
deriving DecidableEq

def Kmorphd.identity (k : Kmorphd) : Identity := ⟨k.network, k.standby, k.stored⟩

theorem identity_closed (inet : Inet) (id : Identity) :
    OpsClosed (kmorphdOps inet).toTakeoverOps fun k => k.identity = id :=
  ⟨fun _ held => held, fun _ held => held, fun _ held => held, fun _ held => held,
    fun _ _ _ held => held⟩

theorem Keeps.identity {d d' : Daemon Kmorphd} (keeps : Keeps (kmorphdOps inet) d d') :
    d'.machine.ctx.1.identity = d.machine.ctx.1.identity :=
  keeps _ (identity_closed inet _) (fun _ held => held) rfl

/-- The snapshot of the network request that this step answers `ok network`. -/
def accepted (inet : Inet) (d : Daemon Kmorphd) (ev : Event) : Option Netsnap :=
  if NETWORK_OK ∈ (daemonStep (kmorphdOps inet) d ev).history.drop d.history.length then
    (networkText ev).bind fun text => (netsnapParse inet text).toOption
  else none

/-- The snapshot of the last network request of a run answered `ok network`, `start` if there is none. -/
def lastAccepted (inet : Inet) : Daemon Kmorphd → Option Netsnap → List Event → Option Netsnap
  | _, start, [] => start
  | d, start, ev :: events =>
      lastAccepted inet (daemonStep (kmorphdOps inet) d ev) ((accepted inet d ev).or start) events

theorem lastAccepted_append (d : Daemon Kmorphd) (start : Option Netsnap) (before after : List Event) :
    lastAccepted inet d start (before ++ after) =
      lastAccepted inet (daemonRun (kmorphdOps inet) d before) (lastAccepted inet d start before)
        after := by
  induction before generalizing d start with
  | nil => rfl
  | cons first before ih => exact ih _ _

/-- What one step does to the identity. -/
structure Identified (inet : Inet) (d : Daemon Kmorphd) (ev : Event) : Prop where
  network : (daemonStep (kmorphdOps inet) d ev).machine.ctx.1.network =
    (accepted inet d ev).or d.machine.ctx.1.network
  unanswered : NETWORK_OK ∉ (daemonStep (kmorphdOps inet) d ev).history.drop d.history.length →
    (daemonStep (kmorphdOps inet) d ev).machine.ctx.1.identity = d.machine.ctx.1.identity
  begun : d.tk.state.begun = true → accepted inet d ev = none ∧
    (daemonStep (kmorphdOps inet) d ev).machine.ctx.1.identity = d.machine.ctx.1.identity
  watching : d.tk.state.begun = false → ∀ text, networkText ev = some text →
    accepted inet d ev = (netsnapParse inet text).toOption

section Step

variable {d : Daemon Kmorphd} {ev : Event}

theorem identified_of_taken {text : List Char} {snap : Netsnap} (found : networkText ev = some text)
    (watching : d.tk.state.begun = false) (parsed : netsnapParse inet text = .ok snap)
    (stored : daemonStep (kmorphdOps inet) d ev =
      d.storing (d.machine.ctx.1.storeNetwork text snap)) : Identified inet d ev := by
  have answered : NETWORK_OK ∈
      (daemonStep (kmorphdOps inet) d ev).history.drop d.history.length := by
    rw [stored]
    show NETWORK_OK ∈ (d.history ++ [NETWORK_OK]).drop d.history.length
    simp
  have taken : accepted inet d ev = some snap := by
    simp [accepted, answered, found, parsed, Except.toOption]
  refine ⟨?_, fun unanswered => absurd answered unanswered, ?_, ?_⟩
  · rw [taken, stored]
    rfl
  · intro begun
    simp [watching] at begun
  · intro _ other same
    obtain rfl : text = other := Option.some.inj (found.symm.trans same)
    rw [taken, parsed]
    rfl

theorem accepted_of_refused
    (refused : ∀ text, networkText ev = some text →
      NETWORK_OK ∉ (daemonStep (kmorphdOps inet) d ev).history.drop d.history.length) :
    accepted inet d ev = none := by
  simp only [accepted]
  split
  · rename_i answered
    cases found : networkText ev with
    | none => rfl
    | some text => exact absurd answered (refused text found)
  · rfl

theorem takeNetwork_eq_none {text : List Char}
    (refused : (kmorphdOps inet).takeNetwork text k = none) :
    (netsnapParse inet text).toOption = none := by
  cases parsed : netsnapParse inet text with
  | error errno => rfl
  | ok snap =>
      have taken := (takeNetwork_eq_some (k := k)).mpr ⟨snap, parsed, rfl⟩
      rw [refused] at taken
      cases taken

theorem daemonStep_identified (inet : Inet) (d : Daemon Kmorphd) (ev : Event) :
    Identified inet d ev := by
  rcases daemonStep_stores (kmorphdOps inet) d ev with
    ⟨text, next, found, watching, taken, stored⟩ | ⟨keeps, refused⟩
  · obtain ⟨snap, parsed, rfl⟩ := takeNetwork_eq_some.mp taken
    exact identified_of_taken found watching parsed stored
  · have same := keeps.identity
    have unaccepted : accepted inet d ev = none :=
      accepted_of_refused fun text found => (refused text found).1
    refine ⟨?_, fun _ => same, fun _ => ⟨unaccepted, same⟩, ?_⟩
    · rw [unaccepted]
      exact congrArg Identity.network same
    · intro watching text found
      have malformed := (refused text found).2.resolve_left (by simp [watching])
      rw [unaccepted, takeNetwork_eq_none malformed]

end Step

theorem textLines_newline (text : List Char) :
    textLines (text ++ ['\n']) = textLines text ∨
      textLines (text ++ ['\n']) = textLines text ++ [[]] := by
  induction text with
  | nil => exact .inr rfl
  | cons c text ih =>
      rw [List.cons_append, textLines, textLines]
      split
      · rcases ih with same | blank
        · exact .inl (by rw [same])
        · exact .inr (by rw [blank]; rfl)
      · rcases ih with same | blank
        · exact .inl (by rw [same])
        · rw [blank]
          cases textLines text with
          | nil => exact .inl rfl
          | cons line lines => exact .inr rfl

theorem parseLines_blank (s : Netsnap) (lines : List (List Char)) :
    parseLines inet s (lines ++ [[]]) = parseLines inet s lines := by
  induction lines generalizing s with
  | nil => rfl
  | cons line lines ih =>
      rw [List.cons_append, parseLines, parseLines]
      split
      · exact ih s
      · split
        · rfl
        · exact ih _

/-- `file_read_string` drops the newlines at the end, which no line of the format needs. -/
theorem parseLines_fileString (s : Netsnap) (text : List Char) :
    parseLines inet s (textLines (fileString text)) = parseLines inet s (textLines text) := by
  induction text using List.reverseRecOn with
  | nil => rfl
  | append_singleton text c ih =>
      by_cases newline : c = '\n'
      · subst newline
        have stripped : fileString (text ++ ['\n']) = fileString text := by simp [fileString]
        rw [stripped, ih]
        rcases textLines_newline text with same | blank
        · rw [same]
        · rw [blank, parseLines_blank]
      · have kept : fileString (text ++ [c]) = text ++ [c] := by simp [fileString, newline]
        rw [kept]

theorem netsnapParse_standby (text : List Char) :
    netsnapParse inet (fileString (cString text)) = netsnapParse inet text := by
  have noNul : '\x00' ∉ cString text := by
    intro member
    have := List.mem_takeWhile_imp member
    simp at this
  have plain : cString (fileString (cString text)) = fileString (cString text) := by
    refine cString_of_plain fun member => noNul ?_
    exact List.mem_reverse.mp (List.dropWhile_subset _ (List.mem_reverse.mp member))
  rw [netsnapParse, netsnapParse, plain, parseLines_fileString]

def Netsnap.hasLinks (s : Netsnap) : Bool := s.links.length ≠ 0

theorem loadNetwork_hasLinks (inet : Inet) (paths : List (Option (List Char))) :
    (loadNetwork inet paths).filter Netsnap.hasLinks = loadNetwork inet paths := by
  induction paths with
  | nil => rfl
  | cons path paths ih =>
      cases path with
      | none => exact ih
      | some bytes =>
          simp only [loadNetwork]
          split
          · rfl
          · split
            · rename_i links
              simp [Netsnap.hasLinks, links]
            · rfl

/-- A `kmorphd` that starts now loads the stored identity, unless a write of its file failed. -/
def Reloads (inet : Inet) (image : Option (List Char)) (id : Identity) : Prop :=
  (∀ ret ∈ id.stored, ret = 0) →
    loadNetwork inet [id.standby, image] = id.network.filter Netsnap.hasLinks

theorem reloads_storeNetwork {text : List Char} {snap : Netsnap} (image : Option (List Char))
    (parsed : netsnapParse inet text = .ok snap) (k : Kmorphd) :
    Reloads inet image (k.storeNetwork text snap).identity := by
  intro written
  have zero : (k.writes 0).ret = 0 := written _ (List.mem_append_right _ List.mem_cons_self)
  have standby : (k.storeNetwork text snap).identity.standby = some (cString text) := if_pos zero
  rw [standby, loadNetwork, netsnapParse_standby, parsed]
  show (if snap.links.length ≠ 0 then some snap else none) = Option.filter Netsnap.hasLinks (some snap)
  simp only [Option.filter, Netsnap.hasLinks, decide_eq_true_eq]

theorem daemonStep_reloads {image : Option (List Char)} {d : Daemon Kmorphd}
    (reloads : Reloads inet image d.machine.ctx.1.identity) (ev : Event) :
    Reloads inet image (daemonStep (kmorphdOps inet) d ev).machine.ctx.1.identity := by
  rcases daemonStep_stores (kmorphdOps inet) d ev with
    ⟨text, next, -, -, taken, stored⟩ | ⟨keeps, -⟩
  · obtain ⟨snap, parsed, rfl⟩ := takeNetwork_eq_some.mp taken
    rw [stored]
    exact reloads_storeNetwork image parsed _
  · rw [keeps.identity]
    exact reloads

def begunRule (ops : DaemonOps σ) : DaemonRule ops where
  holds _ m := m.tk.state.begun = true
  bears _ _ := True
  bears_fresh _ := trivial
  begun _ holds := holds
  note _ _ _ _ _ holds := holds
  probe _ _ ev _ _ begun := takeoverHandle_begun ops begun ev
  network _ _ _ _ _ _ _ _ holds := holds
  handover _ _ _ armed _ := takeoverHandle_request_begun armed

theorem daemonRun_holds_free (rule : DaemonRule ops) (free : ∀ handed tk, rule.bears handed tk)
    (holds : rule.Holds d) (events : List Event) : rule.Holds (daemonRun ops d events) := by
  refine rule.daemonRun_holds holds ?_
  intro before ev _
  cases ev with
  | probeReady err now => exact fun _ _ => free _ _
  | tick tick => trivial
  | connection accepted input now => trivial

theorem lastAccepted_begun {d : Daemon Kmorphd} (begun : d.tk.state.begun = true)
    (start : Option Netsnap) (events : List Event) : lastAccepted inet d start events = start := by
  induction events using List.reverseRecOn with
  | nil => rfl
  | append_singleton events ev ih =>
      have still : (daemonRun (kmorphdOps inet) d events).tk.state.begun = true :=
        daemonRun_holds_free (begunRule (kmorphdOps inet)) (fun _ _ => trivial) begun events
      rw [lastAccepted_append, ih, lastAccepted, ((daemonStep_identified inet _ ev).begun still).1]
      rfl

theorem daemonRun_network (d : Daemon Kmorphd) (events : List Event) :
    (daemonRun (kmorphdOps inet) d events).machine.ctx.1.network =
      lastAccepted inet d d.machine.ctx.1.network events := by
  induction events using List.reverseRecOn with
  | nil => rfl
  | append_singleton events ev ih =>
      rw [daemonRun_append, lastAccepted_append, ← ih]
      exact (daemonStep_identified inet _ ev).network

theorem daemonRun_reloads {image : Option (List Char)} {d : Daemon Kmorphd}
    (reloads : Reloads inet image d.machine.ctx.1.identity) (events : List Event) :
    Reloads inet image (daemonRun (kmorphdOps inet) d events).machine.ctx.1.identity := by
  induction events using List.reverseRecOn with
  | nil => exact reloads
  | append_singleton events ev ih =>
      rw [daemonRun_append]
      exact daemonStep_reloads ih ev

theorem pointedRule_run (inet : Inet) (found : Setup) (answers : ℕ → Answers)
    (writes : ℕ → FileWrite) (probeTimeouts fenceRetries : UInt32) (events : List Event) :
    (pointedRule inet fenceRetries).Holds (daemonRun (kmorphdOps inet)
      (daemonInit (daemonSetup inet found answers writes) probeTimeouts fenceRetries) events) := by
  refine daemonRun_holds_free _ (fun _ _ => trivial) ?_ events
  have pointed : Pointed (daemonSetup inet found answers writes) := ⟨rfl, rfl⟩
  exact ⟨⟨rfl, rfl, pointed, rfl⟩, fun handed => by simp [daemonInit] at handed⟩

/-- In every run of `kmorphd` the identity that is applied is the one of the last network request
answered `ok network` before FENCING, or else the loaded one. The stored one is the last answered
so, a step that does not answer so or is from FENCING on leaves it, and a restart finds it again. -/
theorem daemonRun_identity (inet : Inet) (found : Setup) (answers : ℕ → Answers)
    (writes : ℕ → FileWrite) (probeTimeouts fenceRetries : UInt32) (events : List Event) :
    let start := daemonInit (daemonSetup inet found answers writes) probeTimeouts fenceRetries
    let loaded := loadNetwork inet [found.standby, found.image]
    let d := daemonRun (kmorphdOps inet) start events
    let k := d.machine.ctx.1
    (d.tk.state.begun = false → k.applied = []) ∧
    (∀ before, before <+: events →
      (daemonRun (kmorphdOps inet) start before).tk.state.begun = true →
        k.applied = if k.ops.ops.devicesTried then (lastAccepted inet start loaded before).toList
          else []) ∧
    (d.tk.state = .takenOver → k.ops.ops.devicesTried = true) ∧
    k.network = lastAccepted inet start loaded events ∧
    (∀ ev, Identified inet d ev) ∧
    Reloads inet found.image k.identity := by
  intro start loaded d k
  have holds := pointedRule_run inet found answers writes probeTimeouts fenceRetries events
  have pointed : Pointed k := pointedRule_pointed holds
  have network : k.network = lastAccepted inet start loaded events := daemonRun_network start events
  refine ⟨?_, ?_, ?_, network, daemonStep_identified inet d, ?_⟩
  · intro watching
    obtain ⟨-, -, -, untried⟩ := (Stages.holds_watching_iff watching).mp holds.1
    rw [pointed.applied, if_neg (by rw [untried]; exact Bool.false_ne_true)]
  · rintro before ⟨after, rfl⟩ begun
    rw [pointed.applied, network, lastAccepted_append, lastAccepted_begun begun]
  · exact pointedRule_takenOver holds
  · refine daemonRun_reloads ?_ events
    exact fun _ => (loadNetwork_hasLinks inet _).symm

/-- A request with an identity, a malformed one, and a handover. -/
def identityEvents : List Event :=
  [.connection true [.data ("network 95\n".toList ++ sampleText)] 1,
    .connection true [.data "network 4\nlink".toList] 2,
    .tick ⟨true, 7, 0, 3, 3⟩, .probeReady ECONNRESET 4,
    .connection true [.data "handover\n".toList] 5]

example :
    let d := handoverRun 0 identityEvents
    d.history.take 2 = [.reply "ok network\n", .reply "refused malformed\n"] ∧
      d.tk.state = .takenOver ∧ d.machine.ctx.1.applied = [sampleSnap] ∧
      loadNetwork textInet [d.machine.ctx.1.standby, none] = some sampleSnap := by
  decide +kernel

end Kmorph
