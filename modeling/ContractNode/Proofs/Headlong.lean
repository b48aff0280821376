import ContractNode.Proofs.Lone

/-!
# Contracts that do not wait

When a contract does not wait for what comes of its messages, requests can come too early and be
lost. But it is never told more than it would have been otherwise.

* `Node.Headlong` : a run in which only its contract has to do with a session, and does not wait;
* `does_of_turns` : each turn in it is one of a lone session;
* `minds_of_headlong` : what a lone session minds throughout the run;
* `told_of_started` : what the contract is told in it;
* `lost_of_hurry` : a request that comes too early is lost.
-/

namespace ContractNode

namespace Node

/-- One of the loops, workers and threads of a session takes a turn. -/
inductive Turns (s : SessionId) (n : Node) : Node → Prop
  | receive {n' : Node} (took : n.receive? s = some n') : Turns s n n'
  | command {n' : Node} (took : n.command? s = some n') : Turns s n n'
  | work {n' : Node} (took : n.work? s = some n') : Turns s n n'
  | dial {ses : Session} {m : Message} (found : n.session? s = some ses) (spawned : m ∈ ses.dials) :
      Turns s n (n.dial s m)
  | resume {n' : Node} (took : n.resume? s = some n') : Turns s n n'

section Turns

variable {n n' : Node} {s : SessionId} {ses : Session} {read : List Message}

/-- What comes of a message that a lone session has received. -/
structure Comes (n : Node) (s : SessionId) (ses : Session) (n' : Node) : Prop where
  session : ∃ ses', n'.session? s = some ses' ∧ ses.Does n ses'
  ledger : n'.ledger = n.ledger

/-- An established session makes nothing of a message that does not have it ready. -/
theorem handle_of_established {m : Message} (found : n.session? s = some ses)
    (established : ses.phase = .established) (other : m.kind ≠ .ready) : n.handle s m = n := by
  have apart {ses' : Session} {phase : Phase} (found' : n.session? s = some ses')
      (reached : ses'.phase = phase) (different : phase ≠ .established) : False := by
    cases Option.some.inj (found.symm.trans found')
    exact different (reached.symm.trans established)
  have handled := handled_handle n s m
  generalize n.handle s m = n' at handled ⊢
  cases handled with
  | missing | ignored => rfl
  | passes found' passes =>
    cases Option.some.inj (found.symm.trans found')
    rw [established] at passes
    cases passes
  | readies _ _ raised => exact absurd (kind_of_readies raised) other
  | registers found' reached | refused found' reached | calls found' reached
  | submits found' reached => exact (apart found' reached Phase.noConfusion).elim

section Receive

variable {m : Message} {rest : List (Except StreamError Message)}

/-- A contract that registers is told so, and is to be told that the node is ready. -/
theorem does_of_admitted (found : n.session? s = some ses) (lone : ses.Lone)
    (next : ses.link.inbox.queue = .ok m :: rest) (created : ses.phase = .created)
    {id : ContractId} (admits : n.Admits m id) :
    Comes n s ses ((n.withSession s (ses.took rest)).handle s m) := by
  have lone' := lone.took next
  have found' := session?_withSession found (ses.took rest)
  have admits' : (n.withSession s (ses.took rest)).Admits m id :=
    ⟨admits.wants, admits.decoded, admits.free⟩
  have sent := Session.send_of_isOpen lone'.isOpen { kind := .registered }
  rw [handle_of_admitted found' created admits' sent]
  have listed : ((n.withSession s (ses.took rest)).admitted s id).session? s = some _ :=
    session?_modify found'
  refine ⟨⟨_, session?_modify (session?_modify (session?_modify listed)), ?_⟩, rfl⟩
  have waiter : ses.waiter = none := lone.waiter
  have does := Session.Does.enlists next created admits
  simpa [Session.announce, Session.trigger, Session.enqueue, Session.enlisted, Session.speak,
    Session.took, Session.withInbox, waiter, lone.outbound] using does

theorem does_of_handle (found : n.session? s = some ses) (lone : ses.Lone) {heard : List Message}
    (greets : ses.Greets heard) (next : ses.link.inbox.queue = .ok m :: rest) :
    Comes n s ses ((n.withSession s (ses.took rest)).handle s m) := by
  have lone' := lone.took next
  have found' := session?_withSession found (ses.took rest)
  cases greets with
  | waits created =>
    by_cases admitted : ∃ id, n.Admits m id
    · obtain ⟨id, admits⟩ := admitted
      exact does_of_admitted found lone next created admits
    · have unadmitted : ∀ id, ¬ n.Admits m id := fun id admits => admitted ⟨id, admits⟩
      have ignored : (n.withSession s (ses.took rest)).handle s m = n.withSession s (ses.took rest) :=
        handle_of_unadmitted found' created fun id admits =>
          unadmitted id ⟨admits.wants, admits.decoded, admits.free⟩
      rw [ignored]
      refine ⟨⟨_, found', .drops next (fun _ => unadmitted) fun ready => ?_⟩, rfl⟩
      rw [created] at ready
      cases ready
  | told established =>
    by_cases kind : m.kind = .ready
    · rw [handle_of_readies found' established kind, modify_withSession,
        Session.notify_of_unknown (lone'.toUncalled.unknown ..)]
      exact ⟨⟨_, session?_modify found', .readies next established kind⟩, rfl⟩
    · rw [handle_of_established found' established kind]
      refine ⟨⟨_, found', .drops next (fun created => ?_) fun ready => ?_⟩, rfl⟩
      · rw [established] at created
        cases created
      · rw [established] at ready
        cases ready
  | welcomes ready =>
    cases asks : m.job? with
    | none =>
      rw [handle_of_other found' lone'.toUncalled ready asks]
      refine ⟨⟨_, found', .drops next (fun created => ?_) fun _ => asks⟩, rfl⟩
      rw [ready] at created
      cases created
    | some job =>
      obtain ⟨_, rfl⟩ := Message.job?_eq_some_iff.1 asks
      rw [handle_of_asks found' ready asks]
      split
      · rename_i call
        have itself : (⟨.invoke, job.message⟩ : Job) = job := by rw [← call]
        rw [modify_withSession]
        exact ⟨⟨_, session?_withSession found _, .spawns next ready (itself ▸ asks)⟩, rfl⟩
      · rw [submit_eq found' lone'.idle, modify_withSession]
        exact ⟨⟨_, session?_withSession found _, .queues next ready asks⟩, rfl⟩

end Receive

theorem does_of_receive (found : n.session? s = some ses) (lone : ses.Lone)
    (greets : ses.Greets (read ++ ses.link.outbox.queue)) (took : n.receive? s = some n') :
    Comes n s ses n' := by
  cases next : ses.link.inbox.queue with
  | nil => simp [receive?, found, lone.inbound, Pipe.receive, next, lone.more] at took
  | cons a rest =>
    obtain ⟨m, rfl⟩ := lone.arrivals a (next ▸ List.mem_cons_self)
    have arrived : (n.withSession s (ses.took rest)).arrive s m = n' := by
      simp only [receive?, found, lone.inbound, if_true, Pipe.receive_of_queue next,
        Option.some.injEq] at took
      rw [← took, modify_eq_withSession found]
      rfl
    have comes := does_of_handle found lone greets next
    obtain ⟨ses', found', does⟩ := comes.session
    -- The session goes on, so the loop does.
    have live := (does.greets lone greets).live
    rw [← arrived, arrive_of_live found' live]
    exact comes

/-- What the outbound loop of a lone session takes up, it forwards. -/
theorem does_of_command (found : n.session? s = some ses) (lone : ses.Lone) {heard : List Message}
    (greets : ses.Greets heard) (took : n.command? s = some n') : Comes n s ses n' := by
  cases queued : ses.commands with
  | nil => simp [command?, found, lone.outbound, queued] at took
  | cons i rest =>
    obtain ⟨m, kind, rfl⟩ := lone.ordered i (queued ▸ List.mem_cons_self)
    have left := lone.shorter queued
    have found' := session?_withSession found { ses with commands := rest }
    have carried : n' = ((n.withSession s { ses with commands := rest }).handle s m).modify s
        (·.sendAnyway m) := by
      simp only [command?, found, lone.outbound, if_true, queued, Option.some.injEq] at took
      rw [← took, modify_eq_withSession found]
      rfl
    rw [carried]
    cases greets with
    | waits _ _ commands =>
      rw [queued] at commands
      cases commands
    | told established _ commands =>
      rw [queued] at commands
      cases commands
      rw [handle_of_readies found' established rfl, setPhase, modify_withSession,
        modify_withSession, modify_withSession, Session.notify_of_unknown (left.unknown ..),
        Session.sendAnyway_of_isOpen (left.inPhase .ready).isOpen]
      exact ⟨⟨_, session?_withSession found _, .announces queued established rfl⟩, rfl⟩
    | welcomes ready =>
      have silent : m.job? = none := by
        rcases kind with kind | kind
        all_goals simp [Message.job?, kind, Event.ofKind?, RequestKind.ofEvent?]
      rw [handle_of_other found' left.toUncalled ready silent, modify_withSession,
        Session.sendAnyway_of_isOpen left.isOpen]
      exact ⟨⟨_, session?_withSession found _, .forwards queued ready⟩, rfl⟩

/-- A request that a worker of a lone session takes up is refused. -/
theorem does_of_work (found : n.session? s = some ses) (lone : ses.Lone)
    (took : n.work? s = some n') : Comes n s ses n' := by
  cases queued : ses.pool.queue with
  | nil =>
    have idle : ses.pool.take = none := WorkerPool.take_eq_none_iff.2 fun _ => queued
    simp [work?, found, idle] at took
  | cons t rest =>
    obtain ⟨job, rfl⟩ := lone.tasks t (queued ▸ List.mem_cons_self)
    cases (work?_refused found lone.toUncalled queued).symm.trans took
    exact ⟨⟨_, session?_withSession found _, .refuses queued⟩, rfl⟩

/-- A call request that a thread of a lone session takes up is refused. -/
theorem does_of_dial (found : n.session? s = some ses) (lone : ses.Lone) {m : Message}
    (spawned : m ∈ ses.dials) : Comes n s ses (n.dial s m) := by
  have left : (ses.pickUp m).Lone := lone.withDials _
  have found' := session?_withSession found (ses.pickUp m)
  let job : Job := ⟨.invoke, m⟩
  have free : job.message.key ∉ (ses.pickUp m).transactions.markers := by
    rw [left.transactions]
    exact List.not_mem_nil
  have served := serve_refused found' free (left.unknown ..)
  rw [dial, modify_eq_withSession found, served, withSession_withSession]
  exact ⟨⟨_, session?_withSession found _, .declines spawned⟩, rfl⟩

theorem does_of_turns (found : n.session? s = some ses) (lone : ses.Lone)
    (greets : ses.Greets (read ++ ses.link.outbox.queue)) (turn : Turns s n n') :
    Comes n s ses n' := by
  cases turn with
  | receive took => exact does_of_receive found lone greets took
  | command took => exact does_of_command found lone greets took
  | work took => exact does_of_work found lone took
  | dial found' spawned =>
    cases Option.some.inj (found.symm.trans found')
    exact does_of_dial found lone spawned
  | resume took => simp [resume?, found, lone.parked] at took

end Turns

/-! ## Runs -/

/-- A run in which only its contract has to do with a session, and does not wait: what the contract
has said and read so far. Whatever else happens leaves the session as it is. -/
inductive Headlong (s : SessionId) (n : Node) : List Message → List Message → Node → Prop
  | start : Headlong s n [] [] n
  | sends {said read : List Message} {n' : Node} (m : Message) (on : Headlong s n said read n') :
      Headlong s n (said ++ [m]) read (n'.act (.contractSends s m))
  | reads {said read : List Message} {n' : Node} (on : Headlong s n said read n') :
      Headlong s n said (read ++ (n'.drain s).1) (n'.act (.contractReads s))
  | turns {said read : List Message} {n' n'' : Node} (on : Headlong s n said read n')
      (turn : Turns s n' n'') : Headlong s n said read n''
  | apart {said read : List Message} {n' n'' : Node} (on : Headlong s n said read n')
      (move : Move (fun _ => True) n' n'') (same : n''.session? s = n'.session? s) :
      Headlong s n said read n''

/-- A session that only its contract has to do with, which has said and read the given messages. -/
structure Minds (n : Node) (s : SessionId) (said read : List Message) (ses : Session) : Prop where
  found : n.session? s = some ses
  lone : ses.Lone
  greets : ses.Greets (read ++ ses.link.outbox.queue)
  account : ↑read + ses.account ≤ ses.phase.greeting + ↑(said.filterMap Message.refusal?)

section Runs

variable {n n' : Node} {s : SessionId} {said read : List Message} {ses : Session} {m : Message}

theorem Minds.sends (h : n.Minds s said read ses) (m : Message) :
    ∃ ses', (n.act (.contractSends s m)).Minds s (said ++ [m]) read ses' := by
  have delivered : ses.link.deliver (.ok m) = .ok { ses.link with
      inbox := { ses.link.inbox with queue := ses.link.inbox.queue ++ [.ok m] } } := by
    simp [Link.deliver, Pipe.send, h.lone.more, h.lone.there]
  have sent : n.act (.contractSends s m) = n.withSession s
      (ses.withInbox { ses.link.inbox with queue := ses.link.inbox.queue ++ [.ok m] }) := by
    show (n.fromContract s (.ok m)).2 = _
    simp only [fromContract, h.found, delivered, modifyLink]
    exact modify_eq_withSession h.found _
  rw [sent]
  refine ⟨_, session?_withSession h.found _, ?_, ?_, ?_⟩
  · have lone := h.lone
    refine ⟨⟨lone.inbound, lone.outbound, lone.isOpen, lone.more, lone.there, lone.waiter,
      lone.transactions, lone.idle, lone.busy⟩, lone.parked, lone.ordered, lone.tasks,
      fun a mem => ?_⟩
    rcases List.mem_append.1 mem with mem | mem
    · exact lone.arrivals a mem
    · exact ⟨m, List.mem_singleton.1 mem⟩
  · exact h.greets.of_eq rfl rfl rfl rfl
  · rw [Session.account_sent, List.filterMap_append, ← Multiset.coe_add, ← add_assoc, ← add_assoc]
    have refused : [m].filterMap Message.refusal? = m.refusal?.toList := by
      cases refused : m.refusal? with
      | none => exact List.filterMap_cons_none refused
      | some r => exact List.filterMap_cons_some refused
    rw [refused]
    exact add_le_add_left h.account _

theorem Minds.reads (h : n.Minds s said read ses) :
    ∃ ses', (n.act (.contractReads s)).Minds s said (read ++ (n.drain s).1) ses' := by
  have lone := h.lone
  have drained : n.drain s =
      (ses.link.outbox.queue, n.withSession s { ses with link := ses.link.drain.2 }) := by
    simp only [drain, h.found, modifyLink]
    exact congrArg _ (modify_eq_withSession h.found _)
  show ∃ ses', (n.drain s).2.Minds s said _ ses'
  rw [drained]
  refine ⟨_, session?_withSession h.found _, ⟨lone.toUncalled.drain, lone.parked, lone.ordered,
    lone.tasks, lone.arrivals⟩, ?_, ?_⟩
  · have greets := h.greets
    rw [← List.append_nil (read ++ ses.link.outbox.queue)] at greets
    exact greets.of_eq rfl rfl rfl rfl
  · rw [← Multiset.coe_add, add_assoc, Session.account_drain]
    exact h.account

theorem Minds.turns (h : n.Minds s said read ses) (turn : Turns s n n') :
    ∃ ses', n'.Minds s said read ses' := by
  obtain ⟨⟨ses', found, does⟩, _⟩ := does_of_turns h.found h.lone h.greets turn
  refine ⟨ses', found, does.lone h.lone, does.greets h.lone h.greets, ?_⟩
  refine le_of_add_le_add_right (a := ses.phase.greeting) ?_
  calc ↑read + ses'.account + ses.phase.greeting
      = ↑read + (ses'.account + ses.phase.greeting) := add_assoc ..
    _ ≤ ↑read + (ses.account + ses'.phase.greeting) := add_le_add_right (does.account h.lone) _
    _ = ↑read + ses.account + ses'.phase.greeting := (add_assoc ..).symm
    _ ≤ ses.phase.greeting + ↑(said.filterMap Message.refusal?) + ses'.phase.greeting :=
      add_le_add_left h.account _
    _ = ses'.phase.greeting + ↑(said.filterMap Message.refusal?) + ses.phase.greeting := by ac_rfl

/-- A session that has just been started is minded as long as only its contract has to do with
it. -/
theorem minds_of_headlong (run : Headlong s n said read n') (start : n.Minds s [] [] ses) :
    ∃ ses', n'.Minds s said read ses' := by
  induction run with
  | start => exact ⟨ses, start⟩
  | sends m _ ih =>
    obtain ⟨ses', minds⟩ := ih
    exact minds.sends m
  | reads _ ih =>
    obtain ⟨ses', minds⟩ := ih
    exact minds.reads
  | turns _ turn ih =>
    obtain ⟨ses', minds⟩ := ih
    exact minds.turns turn
  | apart _ _ same ih =>
    obtain ⟨ses', found, lone, greets, account⟩ := ih
    exact ⟨ses', same.trans found, lone, greets, account⟩

end Runs

end Node

/-! ## What a contract is told that does not wait -/

/-- What the contract of a session has been told that has said some messages: nothing, that it is
registered, or that and then, in whatever order, that the node is ready and refusals of what it has
asked for, one for each request at most. -/
inductive Session.Tells (ses : Session) (said heard : List Message) : Prop
  | nothing (created : ses.phase = .created) (silent : heard = [])
  | registered (established : ses.phase = .established) (told : heard = [{ kind := .registered }])
  | refusals {more : List Message} (ready : ses.phase = .ready)
      (told : heard = { kind := .registered } :: more)
      (once : more.Subperm ({ kind := .ready } :: said.filterMap Message.refusal?))
      (greeted : ses.commands = [] → more.count { kind := .ready } = 1)

namespace Node

/-- The next message that a session receives has its contract register. -/
def Welcomes (n : Node) (s : SessionId) : Prop :=
  ∃ ses m rest id, n.session? s = some ses ∧ ses.link.inbox.queue = .ok m :: rest ∧ n.Admits m id

/-- A turn of a session leaves the ledger alone. It takes the session past its first phase just if
the contract registers. -/
structure Harmless (s : SessionId) (n n' : Node) : Prop where
  ledger : n'.ledger = n.ledger
  entered : (n.session? s).map (·.phase) = some .created → n.Welcomes s →
    (n'.session? s).map (·.phase) = some .established
  stays : (n.session? s).map (·.phase) = some .created → ¬ n.Welcomes s →
    (n'.session? s).map (·.phase) = some .created

section Told

variable {n n' : Node} {s : SessionId} {said read : List Message} {ses : Session} {m : Message}

theorem count_refusals (l : List Message) :
    (l.filterMap Message.refusal?).count { kind := .ready } = 0 := by
  refine List.count_eq_zero.2 fun mem => ?_
  obtain ⟨m, _, refused⟩ := List.mem_filterMap.1 mem
  have spec := m.refusal?_spec
  split at spec
  · obtain ⟨r, same, failure, _⟩ := spec
    cases same.symm.trans refused
    cases failure
  · rw [refused] at spec
    cases spec

theorem Minds.tells (h : n.Minds s said read ses) :
    ses.Tells said (read ++ ses.link.outbox.queue) := by
  cases h.greets with
  | waits created silent => exact .nothing created silent
  | told established told => exact .registered established told
  | @welcomes more ready told greeted =>
    have heard : (↑(read ++ ses.link.outbox.queue) : Multiset Message) ≤ ↑read + ses.account := by
      rw [← Multiset.coe_add, Session.account, add_assoc (↑ses.link.outbox.queue : Multiset Message),
        add_assoc (↑ses.link.outbox.queue : Multiset Message),
        add_assoc (↑ses.link.outbox.queue : Multiset Message)]
      exact add_le_add_right (Multiset.le_add_right ..) _
    have within := heard.trans h.account
    rw [told, ready] at within
    have once : more.Subperm ({ kind := .ready } :: said.filterMap Message.refusal?) :=
      (List.subperm_cons _).1 (Multiset.coe_le.1 within)
    refine .refusals ready told once fun none => le_antisymm ?_ ?_
    · refine (once.count_le _).trans ?_
      rw [List.count_cons_self, count_refusals]
    · rw [none] at greeted
      exact List.count_pos_iff.2 (greeted.resolve_right List.not_mem_nil)

theorem Minds.harmless (h : n.Minds s said read ses) (turn : Turns s n n') : Harmless s n n' := by
  obtain ⟨⟨ses', found', does⟩, ledger⟩ := does_of_turns h.found h.lone h.greets turn
  have first : (n.session? s).map (·.phase) = some .created → ses.phase = .created := by
    rw [h.found]
    exact Option.some.inj
  refine ⟨ledger, fun created registers => ?_, fun created idle => ?_⟩
  · obtain ⟨ses₁, m, rest, id, found, next, admits⟩ := registers
    cases Option.some.inj (h.found.symm.trans found)
    obtain ⟨m', rest', next', outcome⟩ := does.of_created h.greets (first created)
    cases next.symm.trans next'
    rcases outcome with ⟨unadmitted, _⟩ | ⟨_, established⟩
    · exact absurd admits (unadmitted id)
    · rw [found']
      exact congrArg some established
  · obtain ⟨m, rest, next, outcome⟩ := does.of_created h.greets (first created)
    rcases outcome with ⟨_, still⟩ | ⟨⟨id, admits⟩, _⟩
    · rw [found']
      exact congrArg some still
    · exact absurd ⟨ses, m, rest, id, h.found, next, admits⟩ idle

theorem minds_of_started {config : SessionConfig} {access : AccessPolicy} {launcher : Launcher}
    (found : n.session? s = some ses)
    (started : Session.start { config, access, launcher } = .ok ses)
    (workers : 0 < config.workers) : n.Minds s [] [] ses := by
  cases started
  refine ⟨found, ⟨⟨rfl, rfl, rfl, rfl, rfl, rfl, rfl, workers, rfl⟩, rfl, ?_, ?_, ?_⟩,
    .waits rfl rfl rfl rfl rfl, le_rfl⟩
  all_goals exact fun _ mem => absurd mem List.not_mem_nil

end Told

/-- Nobody but its contract has to do with a session that has been started, and the contract sends
what it likes. If it does not wait, it is told no more than that it is registered, once that the
node is ready, and of each of its requests, once at most, that it is refused. Its session leaves its
first phase just when it receives a message that names the contract with a key that is free. If it
waits for what comes of every message, it is told both at once when it registers, and from there on
each of its requests is refused with one error, and there is no answer to anything else. In either
case, nothing that the session does changes the ledger. -/
theorem told_of_started {n : Node} {s : SessionId} {ses : Session} {config : SessionConfig}
    {access : AccessPolicy} {launcher : Launcher} (rest : n.AtRest) (found : n.session? s = some ses)
    (started : Session.start { config, access, launcher } = .ok ses)
    (workers : 0 < config.workers) :
    (∀ said read n', Headlong s n said read n' →
      (∃ ses', n'.session? s = some ses' ∧
        ses'.Tells said (read ++ ses'.link.outbox.queue)) ∧
      ∀ n'', Turns s n' n'' → Harmless s n' n'') ∧
    (∀ acts, LeftAlone s n acts →
      (Unadmitted s n acts →
        heard s n acts = [] ∧ ((n.steps acts).session? s).map (·.phase) = some .created) ∧
      (∀ before m id after, acts = before ++ .contractSends s m :: after →
        Unadmitted s n before → (n.steps before).Admits m id →
          heard s n acts = [{ kind := .registered }, { kind := .ready }] ++
              (after.filterMap (·.sent? s)).filterMap Message.refusal? ∧
            ((n.steps acts).session? s).map (·.phase) = some .ready) ∧
      ∀ before m after, acts = before ++ .contractSends s m :: after →
        ((n.steps before).step (.contractSends s m)).ledger = (n.steps before).ledger) ∧
    ∀ m : Message, if m.kind ∈ MessageKind.requests then
        ∃ r, m.refusal? = some r ∧ r.kind = .error ∧ r.channel = m.channel ∧ r.tx = m.tx
      else m.refusal? = none := by
  refine ⟨fun said read n' run => ?_, fun acts alone => ?_, Message.refusal?_spec⟩
  · obtain ⟨ses', minds⟩ := minds_of_headlong run (minds_of_started found started workers)
    exact ⟨⟨ses', minds.found, minds.tells⟩, fun n'' turn => minds.harmless turn⟩
  · exact heard_of_uncalled rest found started workers alone

/-! ## Contracts that hurry -/

/-- A session is open, and its loops run. -/
def attending : Node :=
  (withChannels ["ch"] [] [] {}).steps [.openSession {} {} .directory, .start 0]

def naming : Message := { kind := .register, payload := ContractId.codec.encode { name := "cc:1" } }

def asking : Message := { kind := .getState, channel := "ch", tx := "t1" }

/-- A contract asks for something before it registers, and after it. -/
def loneRun : List Act :=
  [.contractSends 0 asking, .contractSends 0 naming, .contractSends 0 asking, .contractReads 0,
    .contractSends 0 { kind := .completed, channel := "ch", tx := "t1" }]

/-- The inbound loop takes a turn, if it can. -/
def turnIn (n : Node) (s : SessionId) : Node := (n.receive? s).getD n

def turnOut (n : Node) (s : SessionId) : Node := (n.command? s).getD n

/-- A contract names itself and asks for something at once; both messages are received before the
outbound loop takes its turn. -/
def hurried : Node :=
  (((((attending.act (.contractSends 0 naming)).act (.contractSends 0 asking)).turnIn 0).turnIn
    0).turnOut 0)

section Hurried

variable {n n' : Node} {s : SessionId} {said read : List Message}

theorem Headlong.turnIn (on : Headlong s n said read n') : Headlong s n said read (n'.turnIn s) := by
  unfold Node.turnIn
  cases took : n'.receive? s with
  | none => exact on
  | some n'' => exact on.turns (.receive took)

theorem Headlong.turnOut (on : Headlong s n said read n') :
    Headlong s n said read (n'.turnOut s) := by
  unfold Node.turnOut
  cases took : n'.command? s with
  | none => exact on
  | some n'' => exact on.turns (.command took)

end Hurried

theorem headlong_hurried : Headlong 0 attending [naming, asking] [] hurried := by
  have begun : Headlong 0 attending [] [] attending := .start
  exact ((begun.sends naming).sends asking).turnIn.turnIn.turnOut

theorem told_of_started_loneRun :
    heard 0 attending loneRun =
        [{ kind := .registered }, { kind := .ready }] ++ asking.refusal?.toList ∧
      ∃ ses, hurried.session? 0 = some ses ∧
        ses.Tells [naming, asking] ses.link.outbox.queue := by
  have rest : attending.AtRest := atRest_steps (atRest_withChannels ..) _
  have alone : LeftAlone 0 attending loneRun := .sends _ (.sends _ (.sends _ (.reads (.sends _
    (.nil _)))))
  have started : Session.start { config := {}, access := {}, launcher := .directory } =
      .ok { inbound := .running, outbound := .running } := rfl
  have found : attending.session? 0 = some { inbound := .running, outbound := .running } := rfl
  obtain ⟨headlong, waiting, _⟩ := told_of_started rest found started (by decide)
  obtain ⟨_, admitted, _⟩ := waiting loneRun alone
  have unadmitted : Unadmitted 0 attending [.contractSends 0 asking] :=
    fun before m' after same id admits => by
      cases before with
      | nil =>
        cases same
        rcases admits.wants with kind | kind <;> cases kind
      | cons a before => simp at same
  have told := (admitted _ _ { name := "cc:1" } _ rfl unadmitted
    ⟨.inl rfl, by decide +kernel, by decide +kernel⟩).1
  refine ⟨told.trans (by decide +kernel), ?_⟩
  exact (headlong _ _ _ headlong_hurried).1

/-- A contract that cannot be told so is not registered, and nothing is sent to it. One that does
not wait until it is ready is not answered at all. -/
theorem lost_of_hurry :
    (attending.Admits naming { name := "cc:1" } ∧
      heard 0 (attending.step (.breakSend 0 true)) [.contractSends 0 naming] = [] ∧
      ((attending.steps [.breakSend 0 true, .contractSends 0 naming]).session? 0).map (·.phase) =
        some .created) ∧
    Headlong 0 attending [naming, asking] [] hurried ∧ hurried.AtRest ∧
      (hurried.drain 0).1 = [{ kind := .registered }, { kind := .ready }] ∧
        asking.refusal?.isSome = true := by
  refine ⟨⟨⟨.inl rfl, by decide +kernel, by decide +kernel⟩, by decide +kernel,
    by decide +kernel⟩, headlong_hurried, ?_, by decide +kernel, by decide +kernel⟩
  have still : hurried.turn?.isNone = true := by decide +kernel
  exact Option.isNone_iff_eq_none.1 still

end Node

end ContractNode
