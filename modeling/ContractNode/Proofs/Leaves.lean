import ContractNode.Proofs.Change

/-!
# What leaves the ledger alone

* `Session.Awaits`, `Node.Queued`, `Node.Accepts` : a request that is queued for the workers of a
  session, or for a thread of its own, and one that a ready lifecycle takes;
* `Node.Leaves` : the ledger is left alone, and no requests are queued but certain new ones;
* `leaves_endSession`, `leaves_finish?`, `leaves_expire` : most of what a node does is of this kind.
-/

namespace ContractNode

/-! ## Sessions -/

namespace Session

def errands (ses : Session) : WorkerPool Job × List Message := (ses.pool, ses.dials)

/-- A request waits for a worker, or a call for its thread. -/
def Awaits (ses : Session) (job : Job) : Prop :=
  .job job ∈ ses.pool.queue ∨ job.kind = .invoke ∧ job.message ∈ ses.dials

theorem awaits_congr {ses ses' : Session} (h : ses'.errands = ses.errands) (job : Job) :
    ses'.Awaits job ↔ ses.Awaits job := by
  simp only [errands, Prod.mk.injEq] at h
  rw [Awaits, Awaits, h.1, h.2]

theorem errands_notify (ses : Session) (m : Message) : (ses.notify m).errands = ses.errands := by
  unfold notify
  split
  · rfl
  · rfl

theorem Talks.errands {ses ses' : Session} (h : ses.Talks ses') : ses'.errands = ses.errands := by
  cases h
  rfl

theorem mem_shutdown {p : WorkerPool Job} {job : Job} (h : .job job ∈ p.shutdown.queue) :
    .job job ∈ p.queue := by
  unfold WorkerPool.shutdown at h
  split at h
  · refine (List.mem_append.1 h).resolve_right fun order => ?_
    cases List.eq_of_mem_replicate order
  · exact h

end Session

namespace Node

def Queued (n : Node) (s : SessionId) (job : Job) : Prop :=
  ∃ ses, n.session? s = some ses ∧ ses.Awaits job

/-- The lifecycle of a session is ready, and takes a message for a request. -/
structure Accepts (n : Node) (s : SessionId) (job : Job) : Prop where
  ready : ∃ ses, n.session? s = some ses ∧ ses.phase = .ready
  asked : (Event.ofKind? job.message.kind).bind RequestKind.ofEvent? = some job.kind

/-- The ledger is left alone, and no requests are queued but certain new ones. -/
structure Leaves (new : SessionId → Job → Prop) (n n' : Node) : Prop where
  ledger : n'.ledger = n.ledger
  queued : ∀ s job, n'.Queued s job → n.Queued s job ∨ new s job

variable {new : SessionId → Job → Prop}

namespace Leaves

variable {n n' n'' : Node}

theorem refl (n : Node) : Leaves new n n := ⟨rfl, fun _ _ there => .inl there⟩

theorem trans (h : Leaves new n n') (h' : Leaves new n' n'') : Leaves new n n'' := by
  refine ⟨h'.ledger.trans h.ledger, fun s job there => ?_⟩
  rcases h'.queued s job there with there | fresh
  · exact h.queued s job there
  · exact .inr fresh

theorem modify (n : Node) (s : SessionId) {f : Session → Session}
    (h : ∀ ses, n.session? s = some ses → ∀ job, (f ses).Awaits job → ses.Awaits job) :
    Leaves new n (n.modify s f) := by
  refine ⟨rfl, fun t job there => .inl ?_⟩
  obtain ⟨ses', found', queued⟩ := there
  rcases session?_modify_cases found' with ⟨rfl, ses, found, rfl⟩ | ⟨_, found'⟩
  · exact ⟨ses, found, h ses found job queued⟩
  · exact ⟨ses', found', queued⟩

theorem apart (n : Node) (s : SessionId) {f : Session → Session}
    (h : ∀ ses, (f ses).errands = ses.errands) : Leaves new n (n.modify s f) :=
  modify n s fun ses _ job => (Session.awaits_congr (h ses) job).1

theorem outside (sessions : n'.sessions = n.sessions) (ledger : n'.ledger = n.ledger) :
    Leaves new n n' := by
  refine ⟨ledger, fun s job there => .inl ?_⟩
  unfold Queued session? at there ⊢
  rwa [sessions] at there

end Leaves

/-! ## Messages and registration -/

theorem leaves_setPhase (n : Node) (s : SessionId) (phase : Phase) :
    Leaves new n (n.setPhase s phase) := .apart n s fun _ => rfl

theorem leaves_talks {n n' : Node} {s : SessionId} (talks : n.Talks s n') : Leaves new n n' := by
  cases talks with
  | intro talks =>
    exact .modify _ s fun ses found job =>
      (Session.awaits_congr (talks ses found).errands job).1

theorem leaves_deregister (n : Node) (s : SessionId) : Leaves new n (n.deregister s) := by
  obtain ⟨directory, left⟩ := n.deregister_eq s
  have off : Leaves new n (n.modify s fun ses => { ses with isRegistered := false }) :=
    .apart n s fun _ => rfl
  rw [left]
  exact off.trans (.outside rfl rfl)

theorem leaves_listed (n : Node) (s : SessionId) (id : ContractId) (d : Directory) :
    Leaves new n (n.listed s id d) := by
  have listed : Leaves new n { n with directory := d } := .outside rfl rfl
  exact listed.trans (.apart _ s fun _ => rfl)

theorem leaves_register (n : Node) (s : SessionId) (m : Message) :
    Leaves new n (n.register s m).2 := by
  have registering := registering_register n s m
  generalize n.register s m = r at registering ⊢
  obtain ⟨outcome, n'⟩ := r
  cases registering with
  | refused e => exact .refl _
  | unsent e free given =>
    rw [given]
    exact (leaves_listed ..).trans (leaves_deregister ..)
  | told link free sent =>
    rw [sent]
    exact (leaves_listed ..).trans (.apart _ s fun _ => rfl)

/-! ## The end of a session -/

theorem leaves_closed (n : Node) (s : SessionId) : Leaves new n (n.closed s) :=
  (leaves_deregister n s).trans (.modify _ s fun _ _ _ => Or.imp_left Session.mem_shutdown)

theorem leaves_endSession (n : Node) (s : SessionId) : Leaves new n (n.endSession s) := by
  cases found : n.session? s with
  | none =>
    simp only [endSession, found]
    exact .refl n
  | some ses =>
    rw [endSession_eq found]
    split
    · exact leaves_closed n s
    · have told : Leaves new n (n.farewelled s) := .apart n s fun ses => ses.errands_notify _
      exact told.trans (leaves_closed ..)

theorem leaves_stopInbound (n : Node) (s : SessionId) : Leaves new n (n.stopInbound s) := by
  have halted : Leaves new n (n.modify s fun ses => { ses with inbound := .stopped }) :=
    .apart n s fun _ => rfl
  exact halted.trans (leaves_endSession ..)

theorem leaves_stopOutbound (n : Node) (s : SessionId) : Leaves new n (n.stopOutbound s) :=
  (leaves_endSession n s).trans (.apart _ s fun _ => rfl)

/-! ## Executions -/

theorem leaves_began (n : Node) (s : SessionId) (ses : Session) (c : Context) (m : Message)
    (origin : Origin) : Leaves new n (n.began s ses c m origin) := by
  have enrolled : Leaves new n (n.modify s fun ses =>
      { ses with
        transactions := ses.transactions.enroll c
        commands := ses.commands ++ [.next { message := m, forward := true }] }) :=
    .apart n s fun _ => rfl
  exact enrolled.trans (.outside rfl rfl)

theorem leaves_abandoned (n : Node) (s : SessionId) (c : Context) :
    Leaves new n (n.abandoned s c) := .apart n s fun _ => rfl

theorem leaves_beginCall {n n' : Node} {t : SessionId} {i : Invocation} {origin : Origin}
    {r : Except SessionError Unit} (begun : n.beginCall t i origin = (r, n')) :
    Leaves new n n' := by
  rcases beginCall_cases begun with ⟨e, _, same⟩ | ⟨m, c, _, comes⟩
  · rw [same]
    exact .refl n
  · cases comes with
    | missing | duplicate => exact .refl _
    | stopped => exact leaves_abandoned ..
    | waits => exact leaves_began ..

theorem leaves_started {n n' : Node} {s : SessionId} {label : String} {kind : MessageKind}
    {P : Context → Prop} (started : Started n s label kind P n') : Leaves new n n' := by
  cases started with
  | refused e => exact .outside rfl rfl
  | stopped e => exact (leaves_abandoned n s _).trans (.outside rfl rfl)
  | waits m => exact leaves_began ..

theorem leaves_ready (n : Node) (s : SessionId) (channel tx : String)
    (signedProposal : Option SignedProposal) (proposal : Option Proposal) :
    Leaves new n (n.ready s channel tx signedProposal proposal).2 := by
  have readied := readied_ready n s channel tx signedProposal proposal
  generalize n.ready s channel tx signedProposal proposal = r at readied ⊢
  obtain ⟨outcome, n'⟩ := r
  cases readied with
  | refused => exact .refl _
  | stopped | waits => exact .apart n s fun _ => rfl

theorem leaves_answer (n : Node) (s : SessionId) (job : Job)
    (result : Except SessionError Bytes) : Leaves new n (n.answer s job result) := by
  rw [answer_eq]
  exact .apart n s fun ses => (Session.talks_reply _ job.kind _).errands

theorem leaves_deliver (n : Node) (origin : Origin) (result : Except SessionError Message) :
    Leaves new n (n.deliver origin result) := by
  cases origin with
  | caller label => exact .outside rfl rfl
  | request s c m =>
    unfold deliver
    exact leaves_answer ..

theorem leaves_modifyContext (n : Node) (s : SessionId) (c : Nat) (f : Context → Context) :
    Leaves new n (n.modifyContext s c f) := .apart n s fun _ => rfl

theorem leaves_deleteContext (n : Node) (s : SessionId) (channel tx : String) :
    Leaves new n (n.deleteContext s channel tx) := .apart n s fun _ => rfl

theorem leaves_forget (n : Node) (call : Call) : Leaves new n (n.forget call) := .outside rfl rfl

theorem leaves_released (n : Node) (call : Call) (ctx : Context) (f : Context → Context) :
    Leaves new n (n.released call ctx f) := by
  refine Leaves.trans ?_ (leaves_forget _ call)
  exact .apart n call.session fun _ => rfl

theorem leaves_finish? {n n' : Node} {call : Call} (finished : n.finish? call = some n') :
    Leaves new n n' := by
  obtain ⟨ctx, m, _, _, rfl⟩ := finish?_cases finished
  exact (leaves_released ..).trans (leaves_deliver ..)

theorem leaves_expire (n : Node) (call : Call) : Leaves new n (n.expire call) := by
  rcases n.expire_cases call with ⟨_, expired⟩ | ⟨ctx, _, expired⟩
  · rw [expired]
    exact leaves_forget n call
  · rw [expired]
    exact (leaves_released ..).trans (leaves_deliver ..)

end Node

end ContractNode
