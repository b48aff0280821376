import ContractNode.Proofs.Admission
import ContractNode.Proofs.Desk
import ContractNode.Proofs.Return

/-!
# Contracts that nobody calls

A contract may send whatever it likes. As long as nobody asks anything of its session, it can
register, and all that comes of its requests is that they are refused.

* `Session.Uncalled` : a session that only its contract has to do with;
* `Message.refusal?` : what a request is answered without a context;
* `step_of_early`, `step_of_admitted`, `step_of_ready` : what comes of a message;
* `Node.LeftAlone`, `Node.heard` : a run in which only its contract has to do with a session, and
  what the contract is sent in it (`heard_of_uncalled`).
-/

namespace ContractNode

namespace Session

variable {ses : Session}

def speak (ses : Session) (ms : List Message) : Session :=
  { ses with
    link := { ses.link with outbox := { ses.link.outbox with queue := ses.link.outbox.queue ++ ms } } }

theorem send_of_isOpen (isOpen : ses.isOpen = true) (m : Message) :
    ses.link.send m = .ok (ses.speak [m]).link := by
  unfold Session.isOpen at isOpen
  simp only [Bool.and_eq_true, Bool.not_eq_true'] at isOpen
  obtain ⟨⟨⟨_, whole⟩, more⟩, there⟩ := isOpen
  simp [Link.send, Pipe.send, whole, more, there, speak]

theorem sendAnyway_of_isOpen (isOpen : ses.isOpen = true) (m : Message) :
    ses.sendAnyway m = ses.speak [m] := by
  rw [sendAnyway, send, send_of_isOpen isOpen]
  rfl

/-- Answers take no notice of the workers. -/
theorem reply_withPool (ses : Session) (pool : WorkerPool Job) (kind : RequestKind) (m : Message) :
    reply kind m { ses with pool } = { ses.reply kind m with pool } := by
  unfold reply
  cases kind.route with
  | direct =>
    unfold sendAnyway send
    cases ses.link.send m with
    | error e => rfl
    | ok link => rfl
  | outbound =>
    unfold trigger enqueue
    by_cases stopped : ses.outbound = .stopped
    · simp only [stopped, if_true]
    · simp only [stopped, if_false]

theorem notify_of_unknown {m : Message} (unknown : ses.transactions.find? m.channel m.tx = none) :
    ses.notify m = ses := by
  rw [notify, unknown]

/-- A session that runs, and that only its contract has to do with: nobody waits for anything. -/
structure Uncalled (ses : Session) : Prop where
  inbound : ses.inbound = .running
  outbound : ses.outbound = .running
  isOpen : ses.isOpen = true
  more : ses.link.inbox.closed = false
  there : ses.link.inbox.abandoned = false
  waiter : ses.waiter = none
  transactions : ses.transactions = {}
  idle : 0 < ses.pool.idle
  busy : ses.pool.busy = []

theorem Uncalled.unknown (h : ses.Uncalled) (channel tx : String) :
    ses.transactions.find? channel tx = none := by
  rw [h.transactions]
  exact KeyMap.get?_empty _

theorem Uncalled.speak (h : ses.Uncalled) (ms : List Message) : (ses.speak ms).Uncalled :=
  ⟨h.inbound, h.outbound, h.isOpen, h.more, h.there, h.waiter, h.transactions, h.idle, h.busy⟩

/-- What becomes of a session whose contract registers. -/
def enlisted (ses : Session) (id : ContractId) (phase : Phase) : Session :=
  { ses with
    phase, isRegistered := true, identity := some id
    place := some (ContractInstance.ofName id.name) }

theorem Uncalled.enlisted (h : ses.Uncalled) (id : ContractId) (phase : Phase) :
    (ses.enlisted id phase).Uncalled :=
  ⟨h.inbound, h.outbound, h.isOpen, h.more, h.there, h.waiter, h.transactions, h.idle, h.busy⟩

theorem Uncalled.drain (h : ses.Uncalled) : { ses with link := ses.link.drain.2 }.Uncalled :=
  ⟨h.inbound, h.outbound, h.isOpen, h.more, h.there, h.waiter, h.transactions, h.idle, h.busy⟩

theorem Quiet.speak {gates : List String} (h : ses.Quiet gates) (ms : List Message) :
    (ses.speak ms).Quiet gates := ⟨h.commands, h.pool, h.dials, h.parked, h.inbox⟩

end Session

/-- Why a request is refused whose transaction has no context. -/
def Job.refusal (job : Job) : SessionError :=
  match Request.decode job.kind job.message.payload with
  | .error e => .codec e
  | .ok _ => .missingContext job.message.channel job.message.tx

/-- What a message is answered that is a request without a context. -/
def Message.refusal? (m : Message) : Option Message :=
  m.job?.map fun job => Node.reply m (.error job.refusal)

namespace Node

section Steps

variable {n n' : Node} {s : SessionId} {ses ses' : Session} {m r : Message} {job : Job}

/-! ## Sessions that are replaced -/

def withSession (n : Node) (s : SessionId) (ses : Session) : Node := n.modify s fun _ => ses

theorem modify_eq_withSession (found : n.session? s = some ses) (f : Session → Session) :
    n.modify s f = n.withSession s (f ses) := modify_found found f

theorem modify_withSession (n : Node) (s : SessionId) (ses : Session) (f : Session → Session) :
    (n.withSession s ses).modify s f = n.withSession s (f ses) := modify_modify ..

theorem withSession_withSession (n : Node) (s : SessionId) (ses ses' : Session) :
    (n.withSession s ses).withSession s ses' = n.withSession s ses' := modify_modify ..

theorem withSession_self (found : n.session? s = some ses) : n.withSession s ses = n :=
  (modify_eq_withSession found id).symm.trans (modify_self fun _ _ => rfl)

theorem session?_withSession (found : n.session? s = some ses) (ses' : Session) :
    (n.withSession s ses').session? s = some ses' := session?_modify found

/-- On a node at rest, a session that has something to do is the only one that takes a turn. -/
theorem turn?_withSession (rest : n.AtRest) (found : n.session? s = some ses)
    (same : ses'.transactions = ses.transactions) :
    (n.withSession s ses').turn? = (n.withSession s ses').sessionTurn? s :=
  turn?_modify (fun _ => ses') rest found same

/-- A session that has nothing to do leaves a node at rest. -/
theorem atRest_withSession (rest : n.AtRest) (found : n.session? s = some ses)
    (same : ses'.transactions = ses.transactions) (quiet : ses'.Quiet n.gates) :
    (n.withSession s ses').AtRest := atRest_modify (fun _ => ses') rest found same quiet

/-- On a node at rest, the one message that a session is to forward is shown to its lifecycle, and
sent. -/
theorem settle_of_forward (rest : n.AtRest) (found : n.session? s = some ses) (ses' : Session)
    (same : ses'.transactions = ses.transactions) (running : ses'.outbound = .running)
    (dials : ses'.dials = []) (m : Message) :
    (n.withSession s { ses' with commands := [.next { message := m, forward := true }] }).settle =
      (((n.withSession s { ses' with commands := [] }).handle s m).modify s
        (·.sendAnyway m)).settle := by
  have found' := session?_withSession found
    { ses' with commands := [.next { message := m, forward := true }] }
  have took : (n.withSession s { ses' with commands := [.next { message := m, forward := true }]
      }).command? s = some (((n.withSession s { ses' with commands := [] }).handle s m).modify s
        (·.sendAnyway m)) := by
    simp only [command?, found']
    rw [if_pos running]
    simp only [carryOut, modify_withSession, if_true, Bool.false_eq_true, if_false]
  refine settle_of_turn ((turn?_withSession rest found ?_).trans ?_)
  · exact same
  · rw [sessionTurn?, (dial?_eq_none_iff found').2 dials, took]
    rfl

/-! ## Requests without a context -/

theorem serve_refused (found : n.session? s = some ses)
    (free : job.message.key ∉ ses.transactions.markers)
    (unknown : ses.transactions.find? job.message.channel job.message.tx = none) :
    n.serve s job = (none, n.withSession s
      (ses.reply job.kind (reply job.message (.error job.refusal)))) := by
  have absent : (ses.claim job.message.key).transactions.find? job.message.channel job.message.tx =
      none := unknown
  have tried : (n.modify s (·.claim job.message.key)).attempt s (ses.claim job.message.key) job =
      (.answered (.error job.refusal), n.modify s (·.claim job.message.key)) := by
    unfold attempt Job.refusal
    cases Request.decode job.kind job.message.payload with
    | error e => rfl
    | ok request => simp only [absent]
  rw [serve_free found free, tried, ← modify_eq_withSession found]
  refine congrArg (Prod.mk none) (answer_claimed (fun ms known => ?_) _)
  rw [markers, found] at known
  cases known
  exact free

theorem notify_sendAnyway (ses : Session) (m r : Message) :
    (ses.sendAnyway m).notify r = (ses.notify r).sendAnyway m := by
  have link : (ses.notify r).link = ses.link := by
    unfold Session.notify
    split <;> rfl
  unfold Session.sendAnyway Session.send
  rw [link]
  cases ses.link.send m with
  | error e => rfl
  | ok link =>
    show Session.notify { ses with link } r = { ses.notify r with link }
    unfold Session.notify
    cases ses.transactions.find? r.channel r.tx with
    | none | some c => rfl

/-- On a node at rest, an error that a ready session is to forward reaches the contract, and whoever
waits for the transaction. -/
theorem settle_of_error (rest : n.AtRest) (found : n.session? s = some ses)
    (ready : ses.phase = .ready) (running : ses.outbound = .running) {kind : RequestKind}
    (route : kind.route = .outbound) (failure : r.kind = .error) :
    (n.modify s (·.reply kind r)).settle =
      ((n.modify s (·.sendAnyway r)).modify s (·.notify r)).settle := by
  have quiet := (atRest_iff.1 rest).2 s ses found
  have empty := quiet.commands running
  have queued : ses.reply kind r =
      { ses with commands := [.next { message := r, forward := true }] } := by
    simp [Session.reply, route, Session.trigger, Session.enqueue, running, empty]
  have still : { ses with commands := [] } = ses := by rw [← empty]
  rw [modify_eq_withSession found, queued, settle_of_forward rest found ses rfl running quiet.dials r,
    still,
    withSession_self found, handle_of_ends found ready (.inr failure),
    modify_comm n s s fun ses => notify_sendAnyway ses r r]

/-- An answer that nobody waits for reaches the contract, and nothing else comes of it. -/
theorem settle_reply (rest : n.AtRest) (found : n.session? s = some ses)
    (uncalled : ses.Uncalled) (ready : ses.phase = .ready) (kind : RequestKind)
    (failure : r.kind = .error) :
    (n.withSession s (ses.reply kind r)).settle = n.withSession s (ses.speak [r]) := by
  have quiet := (atRest_iff.1 rest).2 s ses found
  have spoken : (n.withSession s (ses.speak [r])).AtRest :=
    atRest_withSession rest found rfl (quiet.speak [r])
  have sends : ses.sendAnyway r = ses.speak [r] := Session.sendAnyway_of_isOpen uncalled.isOpen r
  cases route : kind.route with
  | direct =>
    have replied : ses.reply kind r = ses.speak [r] := by
      simp only [Session.reply, route, sends]
    rw [replied, settle_of_atRest spoken]
  | outbound =>
    rw [← modify_eq_withSession found (·.reply kind r),
      settle_of_error rest found ready uncalled.outbound route failure,
      modify_eq_withSession found, modify_withSession, sends,
      Session.notify_of_unknown ((uncalled.speak [r]).unknown ..), settle_of_atRest spoken]

/-- A worker that takes a request without a context refuses it, and is as idle as before. -/
theorem work?_refused (found : n.session? s = some ses) (uncalled : ses.Uncalled)
    {queue : List (Task Job)} (queued : ses.pool.queue = .job job :: queue) :
    n.work? s = some (n.withSession s
      (Session.reply job.kind (reply job.message (.error job.refusal))
        { ses with pool := { ses.pool with queue } })) := by
  generalize kept : WorkerPool.mk ses.pool.size queue (ses.pool.idle - 1)
    (ses.pool.busy ++ [job]) = p
  obtain ⟨k, more⟩ := Nat.exists_eq_succ_of_ne_zero (Nat.pos_iff_ne_zero.1 uncalled.idle)
  have taken : ses.pool.take = some (.job job, p) := by
    rw [← kept, WorkerPool.take, more, queued]
    rfl
  have back : p.finish job = { ses.pool with queue } := by
    rw [← kept, uncalled.busy, more]
    simp [WorkerPool.finish, more, uncalled.busy]
  have found' := session?_withSession found { ses with pool := p }
  have served : (n.withSession s { ses with pool := p }).serve s job = _ :=
    serve_refused found' (by rw [uncalled.transactions]; exact List.not_mem_nil)
      (uncalled.unknown ..)
  rw [work?_of_job found taken, modify_eq_withSession found, served, withSession_withSession,
    conclude, modify_withSession, Session.reply_withPool]
  generalize reply job.message (.error job.refusal) = r
  show some (n.withSession s { ses.reply job.kind r with pool := p.finish job }) = _
  rw [back]
  exact congrArg (some ∘ n.withSession s) (ses.reply_withPool _ job.kind r).symm

/-- A worker that is given a request without a context refuses it at once. -/
theorem settle_submit_refused (rest : n.AtRest) (found : n.session? s = some ses)
    (uncalled : ses.Uncalled) : (n.submit s job).2.settle = (n.withSession s
      (ses.reply job.kind (reply job.message (.error job.refusal)))).settle := by
  have quiet := (atRest_iff.1 rest).2 s ses found
  have queue : ses.pool.queue = [] := WorkerPool.take_eq_none_iff.1 quiet.pool uncalled.idle
  generalize given : WorkerPool.mk ses.pool.size (ses.pool.queue ++ [.job job]) ses.pool.idle
    ses.pool.busy = p
  have asked : (n.submit s job).2 = n.withSession s { ses with pool := p } := by
    rw [submit_eq found uncalled.idle, modify_eq_withSession found, ← given]
  have found' := session?_withSession found { ses with pool := p }
  have uncalled' : Session.Uncalled { ses with pool := p } :=
    ⟨uncalled.inbound, uncalled.outbound, uncalled.isOpen, uncalled.more, uncalled.there,
      uncalled.waiter, uncalled.transactions, given ▸ uncalled.idle, given ▸ uncalled.busy⟩
  have queued : p.queue = .job job :: ses.pool.queue := by rw [← given, queue]; rfl
  have back : { p with queue := ses.pool.queue } = ses.pool := by rw [← given]
  have took := work?_refused found' uncalled' queued
  rw [withSession_withSession] at took
  simp only [back] at took
  rw [asked]
  refine settle_of_turn ((turn?_withSession rest found ?_).trans ?_)
  · rfl
  · rw [sessionTurn?, (dial?_eq_none_iff found').2 quiet.dials,
      (command?_eq_none_iff found').2 quiet.commands, took]
    rfl

theorem sent_of_uncalled (found : n.session? s = some ses) (uncalled : ses.Uncalled)
    (m : Message) : (n.contractSends s m).1 = .ok () := by
  simp [contractSends, fromContract, found, Link.deliver, Pipe.send, uncalled.more, uncalled.there]

/-- A request without a context is refused, and nothing else comes of it. -/
theorem step_of_request (rest : n.AtRest) (found : n.session? s = some ses)
    (uncalled : ses.Uncalled) (ready : ses.phase = .ready) (asks : m.job? = some job) :
    n.step (.contractSends s m) = n.withSession s (ses.speak [reply m (.error job.refusal)]) := by
  obtain ⟨_, rfl⟩ := Message.job?_eq_some_iff.1 asks
  have free : job.message.key ∉ ses.transactions.markers := by
    rw [uncalled.transactions]
    exact List.not_mem_nil
  rw [step_contractSends rest found ready uncalled.inbound (sent_of_uncalled found uncalled _),
    handle_of_asks found ready asks]
  split
  · rename_i call
    have itself : (⟨.invoke, job.message⟩ : Job) = job := by rw [← call]
    rw [settle_of_dialled rest found,
      dial_dialled found ((atRest_iff.1 rest).2 s ses found).dials, itself,
      serve_refused found free (uncalled.unknown ..)]
    exact settle_reply rest found uncalled ready _ rfl
  · rw [settle_submit_refused rest found uncalled]
    exact settle_reply rest found uncalled ready _ rfl

/-- A ready session makes nothing of a message that is no request. -/
theorem handle_of_other (found : n.session? s = some ses) (uncalled : ses.Uncalled)
    (ready : ses.phase = .ready) (none : m.job? = .none) : n.handle s m = n := by
  have early {ses' : Session} {phase : Phase} (found' : n.session? s = some ses')
      (other : ses'.phase = phase) (apart : phase ≠ .ready) : False := by
    cases Option.some.inj (found.symm.trans found')
    exact apart (other.symm.trans ready)
  have handled := handled_handle n s m
  generalize n.handle s m = n' at handled ⊢
  cases handled with
  | missing | ignored => rfl
  | passes =>
    rw [modify_eq_withSession found, Session.notify_of_unknown (uncalled.unknown ..),
      withSession_self found]
  | registers found' other => exact (early found' other Phase.noConfusion).elim
  | refused found' other => exact (early found' other Phase.noConfusion).elim
  | readies found' other => exact (early found' other Phase.noConfusion).elim
  | calls _ _ asks | submits _ _ asks =>
    rw [none] at asks
    cases asks

theorem step_of_other (rest : n.AtRest) (found : n.session? s = some ses)
    (uncalled : ses.Uncalled) (ready : ses.phase = .ready) (none : m.job? = .none) :
    n.step (.contractSends s m) = n := by
  rw [step_contractSends rest found ready uncalled.inbound (sent_of_uncalled found uncalled _),
    handle_of_other found uncalled ready none, settle_of_atRest rest]

/-! ## Registration -/

/-- Nothing comes of a message to a session that is not registered yet, unless it has the contract
register. -/
theorem step_of_early (rest : n.AtRest) (found : n.session? s = some ses)
    (uncalled : ses.Uncalled) (created : ses.phase = .created)
    (unadmitted : ∀ id, ¬ n.Admits m id) : n.step (.contractSends s m) = n := by
  have nothing : n.handle s m = n := handle_of_unadmitted found created unadmitted
  have live : ses.phase ≠ .ended := created ▸ Phase.noConfusion
  rw [step_of_sent rest found uncalled.inbound (sent_of_uncalled found uncalled m),
    arrive_of_live (nothing.symm ▸ found) live, nothing, settle_of_atRest rest]

theorem atRest_directory (rest : n.AtRest) (directory : Directory) :
    { n with directory }.AtRest := by
  obtain ⟨waiting, quiet⟩ := atRest_iff.1 rest
  refine atRest_iff.2 ⟨fun call waits => ?_, quiet⟩
  have silent := finish?_eq_none_iff.1 (waiting call waits)
  exact finish?_eq_none_iff.2 silent

/-- The contract of an established session is told that the node is ready, and it is so. -/
theorem settle_of_announced (rest : n.AtRest) (found : n.session? s = some ses) (ses' : Session)
    (uncalled : ses'.Uncalled) (same : ses'.transactions = ses.transactions)
    (dials : ses'.dials = []) (established : ses'.phase = .established) :
    (n.withSession s { ses' with
      commands := [.next { message := { kind := .ready }, forward := true }] }).settle =
      (n.withSession s { ses'.speak [{ kind := .ready }] with
        commands := [], phase := .ready }).settle := by
  have found' := session?_withSession found { ses' with commands := [] }
  have unknown : ses'.transactions.find? "" "" = none := uncalled.unknown "" ""
  have isOpen : Session.isOpen { ses' with commands := [], phase := .ready } = true :=
    uncalled.isOpen
  rw [settle_of_forward rest found ses' same uncalled.outbound dials,
    handle_of_readies found' established rfl]
  unfold setPhase
  rw [modify_withSession, modify_withSession, modify_withSession,
    Session.notify_of_unknown unknown, Session.sendAnyway_of_isOpen isOpen]
  rfl

/-- A contract that registers is told so, and that the node is ready. -/
theorem step_of_admitted (rest : n.AtRest) (found : n.session? s = some ses)
    (uncalled : ses.Uncalled) (created : ses.phase = .created) {id : ContractId}
    (admits : n.Admits m id) : n.step (.contractSends s m) =
      { n with directory := n.directory.list (ContractInstance.ofName id.name).key s }.withSession s
        ((ses.speak [{ kind := .registered }, { kind := .ready }]).enlisted id .ready) := by
  have quiet := (atRest_iff.1 rest).2 s ses found
  have empty := quiet.commands uncalled.outbound
  have sent := Session.send_of_isOpen uncalled.isOpen { kind := .registered }
  have handled := handle_of_admitted found created admits sent
  unfold admitted Node.listed setPhase at handled
  rw [modify_modify, modify_modify, modify_modify] at handled
  generalize n.directory.list (ContractInstance.ofName id.name).key s = d at handled ⊢
  have rest' : { n with directory := d }.AtRest := atRest_directory rest d
  have found' : { n with directory := d }.session? s = some ses := found
  generalize told : (ses.speak [{ kind := .registered }]).enlisted id .established = ses'
  have reached : n.handle s m = { n with directory := d }.withSession s
      { ses' with commands := [.next { message := { kind := .ready }, forward := true }] } := by
    rw [handled, modify_eq_withSession found', ← told]
    simp [Session.announce, uncalled.waiter, Session.trigger, Session.enqueue, uncalled.outbound,
      empty, Session.enlisted, Session.speak]
  have there := session?_withSession found'
    { ses' with commands := [.next { message := { kind := .ready }, forward := true }] }
  have established : ses'.phase = .established := by rw [← told]; rfl
  have uncalled' : ses'.Uncalled := by
    rw [← told]
    exact (uncalled.speak _).enlisted id .established
  have welcomed : { ses'.speak [{ kind := .ready }] with commands := [], phase := .ready } =
      (ses.speak [{ kind := .registered }, { kind := .ready }]).enlisted id .ready := by
    rw [← told]
    simp [Session.enlisted, Session.speak, empty]
  rw [step_of_sent rest found uncalled.inbound (sent_of_uncalled found uncalled m),
    arrive_of_live (reached ▸ there) (established ▸ Phase.noConfusion), reached,
    settle_of_announced rest' found' ses' uncalled' (told ▸ rfl) (told ▸ quiet.dials) established,
    welcomed]
  refine settle_of_atRest (atRest_withSession rest' found' rfl ?_)
  exact ⟨quiet.commands, quiet.pool, quiet.dials, quiet.parked, quiet.inbox⟩

/-- What becomes of a ready session whose contract sends a message: it answers, or does nothing. -/
theorem step_of_ready (rest : n.AtRest) (found : n.session? s = some ses)
    (uncalled : ses.Uncalled) (ready : ses.phase = .ready) :
    n.step (.contractSends s m) = n.withSession s (ses.speak m.refusal?.toList) := by
  cases asks : m.job? with
  | some job =>
    have refusal : m.refusal? = some (reply m (.error job.refusal)) := by
      rw [Message.refusal?, asks]
      rfl
    rw [refusal, step_of_request rest found uncalled ready asks]
    rfl
  | none =>
    have silent : m.refusal? = none := by
      rw [Message.refusal?, asks]
      rfl
    have same : ses.speak [] = ses := by simp [Session.speak]
    rw [silent, step_of_other rest found uncalled ready asks]
    exact ((congrArg (n.withSession s) same).trans (withSession_self found)).symm

/-- What a contract reads is gone. -/
theorem step_contractReads (rest : n.AtRest) (found : n.session? s = some ses) :
    n.step (.contractReads s) = n.withSession s { ses with link := ses.link.drain.2 } := by
  have quiet := (atRest_iff.1 rest).2 s ses found
  have drained : n.act (.contractReads s) = n.withSession s { ses with link := ses.link.drain.2 } := by
    show (n.drain s).2 = _
    simp only [drain, found, modifyLink]
    exact modify_eq_withSession found _
  unfold step
  rw [drained]
  refine settle_of_atRest (atRest_withSession rest found rfl ?_)
  exact ⟨quiet.commands, quiet.pool, quiet.dials, quiet.parked, quiet.inbox⟩

end Steps

/-! ## Sessions that are attended to -/

/-- A node at rest attends to an uncalled session: its phase, and what its contract has been sent
and not read yet. -/
structure Attends (n : Node) (s : SessionId) (phase : Phase) (pending : List Message) : Prop where
  rest : n.AtRest
  session : ∃ ses, n.session? s = some ses ∧ ses.Uncalled ∧ ses.phase = phase ∧
    ses.link.outbox.queue = pending

namespace Attends

variable {n : Node} {s : SessionId} {phase : Phase} {pending : List Message} {m : Message}

theorem phase_eq (h : n.Attends s phase pending) :
    (n.session? s).map (·.phase) = some phase := by
  obtain ⟨ses, found, _, rfl, _⟩ := h.session
  rw [found]
  rfl

theorem drained (h : n.Attends s phase pending) : (n.drain s).1 = pending := by
  obtain ⟨ses, found, _, _, rfl⟩ := h.session
  simp only [drain, found]
  rfl

theorem early (h : n.Attends s .created pending) (unadmitted : ∀ id, ¬ n.Admits m id) :
    n.step (.contractSends s m) = n := by
  obtain ⟨ses, found, uncalled, created, _⟩ := h.session
  exact step_of_early h.rest found uncalled created unadmitted

theorem admitted (h : n.Attends s .created pending) {id : ContractId} (admits : n.Admits m id) :
    (n.step (.contractSends s m)).Attends s .ready
      (pending ++ [{ kind := .registered }, { kind := .ready }]) ∧
        (n.step (.contractSends s m)).ledger = n.ledger := by
  obtain ⟨ses, found, uncalled, created, rfl⟩ := h.session
  have led := step_of_admitted h.rest found uncalled created admits
  refine ⟨⟨settle_atRest _, ?_⟩, congrArg (·.ledger) led⟩
  generalize n.step (.contractSends s m) = n' at led ⊢
  subst led
  exact ⟨_, session?_modify found, (uncalled.speak _).enlisted id .ready, rfl, rfl⟩

theorem answered (h : n.Attends s .ready pending) (m : Message) :
    (n.step (.contractSends s m)).Attends s .ready (pending ++ m.refusal?.toList) ∧
      (n.step (.contractSends s m)).ledger = n.ledger := by
  obtain ⟨ses, found, uncalled, ready, rfl⟩ := h.session
  have led := step_of_ready (m := m) h.rest found uncalled ready
  refine ⟨⟨settle_atRest _, ?_⟩, congrArg (·.ledger) led⟩
  rw [led]
  exact ⟨_, session?_withSession found _, uncalled.speak _, ready, rfl⟩

theorem read (h : n.Attends s phase pending) : (n.step (.contractReads s)).Attends s phase [] := by
  obtain ⟨ses, found, uncalled, same, _⟩ := h.session
  refine ⟨settle_atRest _, ?_⟩
  rw [step_contractReads h.rest found]
  exact ⟨_, session?_withSession found _, uncalled.drain, same, rfl⟩

theorem apart (h : n.Attends s phase pending) {a : Act}
    (same : (n.step a).session? s = n.session? s) : (n.step a).Attends s phase pending :=
  ⟨settle_atRest _, same.symm ▸ h.session⟩

/-- What a contract sends leaves the ledger as it is. -/
theorem ledger (h : n.Attends s phase pending) (early : phase = .created ∨ phase = .ready)
    (m : Message) : (n.step (.contractSends s m)).ledger = n.ledger := by
  rcases early with rfl | rfl
  · by_cases admitted : ∃ id, n.Admits m id
    · obtain ⟨id, admits⟩ := admitted
      exact (h.admitted admits).2
    · rw [h.early fun id admits => admitted ⟨id, admits⟩]
  · exact (h.answered m).2

end Attends

end Node

/-! ## Runs -/

/-- The message that the contract of a session sends, if that is what the act is. -/
def Act.sent? (s : SessionId) : Act → Option Message
  | .contractSends t m => if t = s then some m else none
  | _ => none

/-- What the contracts of sessions may ask for while they run transactions. -/
def MessageKind.requests : List MessageKind :=
  [.getState, .putState, .delState, .getStateByRange, .getQueryResult, .getHistoryForKey,
    .queryStateNext, .queryStateClose, .invokeContract]

/-- Without a context, a message is answered just if it is a request, and with an error. -/
theorem Message.refusal?_spec (m : Message) :
    if m.kind ∈ MessageKind.requests then
      ∃ r, m.refusal? = some r ∧ r.kind = .error ∧ r.channel = m.channel ∧ r.tx = m.tx
    else m.refusal? = none := by
  cases kind : m.kind
  all_goals simp [refusal?, job?, kind, Event.ofKind?, RequestKind.ofEvent?,
    MessageKind.requests, Node.reply]

namespace Node

section Runs

variable {n : Node} {s : SessionId} {acts before after : List Act} {m : Message}
  {phase : Phase} {pending : List Message}

/-- In a run, only its contract has to do with a session: whatever else happens leaves the session
as it is. -/
inductive LeftAlone (s : SessionId) : Node → List Act → Prop
  | nil (n : Node) : LeftAlone s n []
  | sends {n : Node} {acts : List Act} (m : Message)
      (on : LeftAlone s (n.step (.contractSends s m)) acts) :
      LeftAlone s n (.contractSends s m :: acts)
  | reads {n : Node} {acts : List Act} (on : LeftAlone s (n.step (.contractReads s)) acts) :
      LeftAlone s n (.contractReads s :: acts)
  | apart {n : Node} {a : Act} {acts : List Act} (silent : a.sent? s = none)
      (other : a ≠ .contractReads s) (same : (n.step a).session? s = n.session? s)
      (on : LeftAlone s (n.step a) acts) : LeftAlone s n (a :: acts)

theorem LeftAlone.of_append (h : LeftAlone s n (before ++ after)) :
    LeftAlone s n before ∧ LeftAlone s (n.steps before) after := by
  induction before generalizing n with
  | nil => exact ⟨.nil n, h⟩
  | cons a before ih =>
    cases h with
    | sends m on => exact ⟨.sends m (ih on).1, (ih on).2⟩
    | reads on => exact ⟨.reads (ih on).1, (ih on).2⟩
    | apart silent other same on => exact ⟨.apart silent other same (ih on).1, (ih on).2⟩

/-- No message that the contract of a session sends in a run has it register. -/
def Unadmitted (s : SessionId) (n : Node) (acts : List Act) : Prop :=
  ∀ before m after, acts = before ++ .contractSends s m :: after →
    ∀ id, ¬ (n.steps before).Admits m id

theorem Unadmitted.of_cons {a : Act} (h : Unadmitted s n (a :: acts)) :
    Unadmitted s (n.step a) acts := fun before m after same =>
  h (a :: before) m after (congrArg (a :: ·) same)

/-- What the contract of a session reads in an act. -/
def readings (n : Node) (s : SessionId) : Act → List Message
  | .contractReads t => if t = s then (n.drain s).1 else []
  | _ => []

/-- What the contract of a session is sent in a run: what it reads, and what it could still read
after it. -/
def heard (s : SessionId) : Node → List Act → List Message
  | n, [] => (n.drain s).1
  | n, a :: acts => n.readings s a ++ heard s (n.step a) acts

theorem readings_of_other {a : Act} (other : a ≠ .contractReads s) : n.readings s a = [] := by
  unfold readings
  split
  · exact if_neg fun same => other (congrArg Act.contractReads same)
  · rfl

theorem Attends.readings (h : n.Attends s phase pending) :
    n.readings s (.contractReads s) = pending := (if_pos rfl).trans h.drained

/-- As long as it does not register, a contract is sent nothing. -/
theorem heard_of_unadmitted (alone : LeftAlone s n before)
    (attends : n.Attends s .created pending) (unadmitted : Unadmitted s n before) :
    ∃ told pending', pending = told ++ pending' ∧
      (n.steps before).Attends s .created pending' ∧
        ∀ after, heard s n (before ++ after) = told ++ heard s (n.steps before) after := by
  induction alone generalizing pending with
  | nil n => exact ⟨[], pending, rfl, attends, fun _ => rfl⟩
  | @sends n acts m on ih =>
    have still := attends.early (unadmitted [] m acts rfl)
    obtain ⟨told, pending', split, attends', goes⟩ := ih (still.symm ▸ attends) unadmitted.of_cons
    refine ⟨told, pending', split, attends', fun after => ?_⟩
    exact (congrArg (· ++ _) (readings_of_other Act.noConfusion)).trans (goes after)
  | reads on ih =>
    obtain ⟨told, pending', split, attends', goes⟩ := ih attends.read unadmitted.of_cons
    obtain ⟨rfl, rfl⟩ := List.append_eq_nil_iff.1 split.symm
    refine ⟨pending, [], (List.append_nil _).symm, attends', fun after => ?_⟩
    exact congr (congrArg (· ++ ·) attends.readings) (goes after)
  | apart silent other same on ih =>
    obtain ⟨told, pending', split, attends', goes⟩ := ih (attends.apart same) unadmitted.of_cons
    refine ⟨told, pending', split, attends', fun after => ?_⟩
    exact (congrArg (· ++ _) (readings_of_other other)).trans (goes after)

/-- Once it has registered, the requests of a contract are refused, one by one, and that is all. -/
theorem heard_of_admitted (alone : LeftAlone s n acts)
    (attends : n.Attends s .ready pending) :
    heard s n acts = pending ++ (acts.filterMap (·.sent? s)).filterMap Message.refusal? ∧
      ∃ pending', (n.steps acts).Attends s .ready pending' := by
  induction alone generalizing pending with
  | nil n => exact ⟨attends.drained.trans (List.append_nil _).symm, pending, attends⟩
  | @sends n acts m on ih =>
    obtain ⟨goes, on⟩ := ih (attends.answered m).1
    refine ⟨?_, on⟩
    have sent : Act.sent? s (.contractSends s m) = some m := if_pos rfl
    have unread := readings_of_other (n := n) (s := s) (a := .contractSends s m) Act.noConfusion
    show n.readings s _ ++ heard s _ acts = _
    rw [unread, goes, List.filterMap_cons_some sent]
    cases refused : m.refusal? with
    | none => simp [List.filterMap_cons_none refused]
    | some r => simp [List.filterMap_cons_some refused]
  | reads on ih =>
    obtain ⟨goes, on⟩ := ih attends.read
    exact ⟨congr (congrArg (· ++ ·) attends.readings) goes, on⟩
  | apart silent other same on ih =>
    obtain ⟨goes, on⟩ := ih (attends.apart same)
    refine ⟨?_, on⟩
    rw [List.filterMap_cons_none silent, ← goes]
    exact congrArg (· ++ _) (readings_of_other other)

/-- A session is attended to as long as it is left alone. -/
theorem attends_steps (alone : LeftAlone s n acts) (attends : n.Attends s phase pending)
    (early : phase = .created ∨ phase = .ready) :
    ∃ phase' pending', (n.steps acts).Attends s phase' pending' ∧
      (phase' = .created ∨ phase' = .ready) := by
  induction alone generalizing phase pending with
  | nil n => exact ⟨phase, pending, attends, early⟩
  | @sends n acts m on ih =>
    rcases early with rfl | rfl
    · by_cases admitted : ∃ id, n.Admits m id
      · obtain ⟨id, admits⟩ := admitted
        exact ih (attends.admitted admits).1 (.inr rfl)
      · have still := attends.early fun id admits => admitted ⟨id, admits⟩
        exact ih (still.symm ▸ attends) (.inl rfl)
    · exact ih (attends.answered m).1 (.inr rfl)
  | reads on ih => exact ih attends.read early
  | apart silent other same on ih => exact ih (attends.apart same) early

theorem attends_of_started {config : SessionConfig} {access : AccessPolicy} {launcher : Launcher}
    {ses : Session} (rest : n.AtRest) (found : n.session? s = some ses)
    (started : Session.start { config, access, launcher } = .ok ses)
    (workers : 0 < config.workers) : n.Attends s .created [] := by
  cases started
  exact ⟨rest, _, found, ⟨rfl, rfl, rfl, rfl, rfl, rfl, rfl, workers, rfl⟩, rfl, rfl⟩

end Runs

/-- A contract that waits for what comes of each message may send what it likes to a session that
has been started, and that nobody else has to do with. The session stays as it is, and silent, until
the contract names itself with a key that is free. Then it is told that it is registered, and that
the node is ready. From there on each of its requests is refused. Nothing that it sends changes the
ledger. -/
theorem heard_of_uncalled {n : Node} {s : SessionId} {ses : Session} {config : SessionConfig}
    {access : AccessPolicy} {launcher : Launcher} {acts : List Act} (rest : n.AtRest)
    (found : n.session? s = some ses)
    (started : Session.start { config, access, launcher } = .ok ses) (workers : 0 < config.workers)
    (alone : LeftAlone s n acts) :
    (Unadmitted s n acts →
      heard s n acts = [] ∧ ((n.steps acts).session? s).map (·.phase) = some .created) ∧
    (∀ before m id after, acts = before ++ .contractSends s m :: after →
      Unadmitted s n before → (n.steps before).Admits m id →
        heard s n acts = [{ kind := .registered }, { kind := .ready }] ++
            (after.filterMap (·.sent? s)).filterMap Message.refusal? ∧
          ((n.steps acts).session? s).map (·.phase) = some .ready) ∧
    ∀ before m after, acts = before ++ .contractSends s m :: after →
      ((n.steps before).step (.contractSends s m)).ledger = (n.steps before).ledger := by
  have attends := attends_of_started rest found started workers
  refine ⟨fun unadmitted => ?_, fun before m id after same unadmitted admits => ?_,
    fun before m after same => ?_⟩
  · obtain ⟨told, pending, split, attends', goes⟩ :=
      heard_of_unadmitted alone attends unadmitted
    obtain ⟨rfl, rfl⟩ := List.append_eq_nil_iff.1 split.symm
    have silent := goes []
    rw [List.append_nil] at silent
    exact ⟨silent.trans attends'.drained, attends'.phase_eq⟩
  · subst same
    obtain ⟨first, then'⟩ := alone.of_append
    obtain ⟨told, pending, split, attends', goes⟩ := heard_of_unadmitted first attends unadmitted
    obtain ⟨rfl, rfl⟩ := List.append_eq_nil_iff.1 split.symm
    have on : LeftAlone s ((n.steps before).step (.contractSends s m)) after := by
      cases then' with
      | sends _ on => exact on
      | apart silent => exact absurd silent (by simp [Act.sent?])
    obtain ⟨rest', pending', last⟩ := heard_of_admitted on (attends'.admitted admits).1
    rw [steps_append]
    refine ⟨(goes _).trans ?_, last.phase_eq⟩
    have unread := readings_of_other (n := n.steps before) (s := s) (a := .contractSends s m)
      Act.noConfusion
    exact (congrArg (· ++ _) unread).trans rest'
  · subst same
    obtain ⟨first, _⟩ := alone.of_append
    obtain ⟨phase, pending, attends', early⟩ := attends_steps first attends (.inl rfl)
    exact attends'.ledger early m

end Node

end ContractNode
