import ContractNode.Proofs.Answers
import ContractNode.Proofs.Uncalled

/-!
# Sessions that nobody but their contract has to do with

A contract that nobody calls may send one message after the other without waiting for what comes
of them, while the loops, the workers and the threads of its session take their turns in any order.

* `Session.Lone` : an uncalled session that has nothing to do but what its contract has sent;
* `Session.Does` : what a lone session does in one turn;
* `Session.account`, `Does.account` : what its contract has been told and will be, in whatever order,
  is what its messages are answered;
* `Session.Greets`, `Does.greets` : how far the handshake has come.
-/

namespace ContractNode

/-- How a request is refused whose transaction has no context. -/
def Job.refused (job : Job) : Message := Node.reply job.message (.error job.refusal)

theorem Message.refusal?_of_asks {m : Message} {job : Job} (asks : m.job? = some job) :
    m.refusal? = some job.refused := by
  obtain ⟨_, rfl⟩ := Message.job?_eq_some_iff.1 asks
  rw [refusal?, asks]
  rfl

/-- What a message on its way from a contract is answered without a context. -/
def refusalOf? (arrival : Except StreamError Message) : Option Message :=
  arrival.toOption.bind Message.refusal?

def Phase.greeting : Phase → Multiset Message
  | .created | .ended => 0
  | .established | .ready => {{ kind := .registered }, { kind := .ready }}

namespace Session

/-- A session that nobody but its contract has anything to do with, now or before. -/
structure Lone (ses : Session) : Prop extends ses.Uncalled where
  parked : ses.parked = []
  /-- What is queued is to be forwarded: that the node is ready, or a refusal. -/
  ordered : ∀ i ∈ ses.commands, ∃ m : Message, (m.kind = .ready ∨ m.kind = .error) ∧
    i = .next { message := m, forward := true }
  tasks : ∀ t ∈ ses.pool.queue, ∃ job, t = .job job
  arrivals : ∀ a ∈ ses.link.inbox.queue, ∃ m, a = .ok m

/-- What the contract of a lone session has been sent and not read, and what it will be sent. -/
def account (ses : Session) : Multiset Message :=
  ↑ses.link.outbox.queue + ↑(ses.commands.filterMap Instruction.forwarded?) +
    ses.pool.jobs.map Job.refused + ↑(ses.dials.map fun m => Job.refused ⟨.invoke, m⟩) +
      ↑(ses.link.inbox.queue.filterMap refusalOf?)

def took (ses : Session) (rest : List (Except StreamError Message)) : Session :=
  ses.withInbox { ses.link.inbox with queue := rest }

/-- What a lone session does in one turn. -/
inductive Does (n : Node) (ses : Session) : Session → Prop
  /-- Nothing comes of a message. -/
  | drops {m : Message} {rest : List (Except StreamError Message)}
      (next : ses.link.inbox.queue = .ok m :: rest)
      (unadmitted : ses.phase = .created → ∀ id, ¬ n.Admits m id)
      (other : ses.phase = .ready → m.job? = none) : Does n ses (ses.took rest)
  | enlists {m : Message} {rest : List (Except StreamError Message)} {id : ContractId}
      (next : ses.link.inbox.queue = .ok m :: rest) (created : ses.phase = .created)
      (admits : n.Admits m id) : Does n ses
        { ((ses.took rest).speak [{ kind := .registered }]).enlisted id .established with
          commands := ses.commands ++ [.next { message := { kind := .ready }, forward := true }] }
  | readies {m : Message} {rest : List (Except StreamError Message)}
      (next : ses.link.inbox.queue = .ok m :: rest) (established : ses.phase = .established)
      (kind : m.kind = .ready) : Does n ses { ses.took rest with phase := .ready }
  | queues {job : Job} {rest : List (Except StreamError Message)}
      (next : ses.link.inbox.queue = .ok job.message :: rest) (ready : ses.phase = .ready)
      (asks : job.message.job? = some job) : Does n ses
        { ses.took rest with pool := { ses.pool with queue := ses.pool.queue ++ [.job job] } }
  | spawns {m : Message} {rest : List (Except StreamError Message)}
      (next : ses.link.inbox.queue = .ok m :: rest) (ready : ses.phase = .ready)
      (asks : m.job? = some ⟨.invoke, m⟩) : Does n ses ((ses.took rest).dial m)
  | announces {m : Message} {rest : List Instruction}
      (queued : ses.commands = .next { message := m, forward := true } :: rest)
      (established : ses.phase = .established) (kind : m.kind = .ready) : Does n ses
        { ses.speak [m] with commands := rest, phase := .ready }
  | forwards {m : Message} {rest : List Instruction}
      (queued : ses.commands = .next { message := m, forward := true } :: rest)
      (ready : ses.phase = .ready) : Does n ses { ses.speak [m] with commands := rest }
  | refuses {job : Job} {rest : List (Task Job)} (queued : ses.pool.queue = .job job :: rest) :
      Does n ses (reply job.kind job.refused { ses with pool := { ses.pool with queue := rest } })
  | declines {m : Message} (dialled : m ∈ ses.dials) :
      Does n ses ((ses.pickUp m).reply .invoke (Job.refused ⟨.invoke, m⟩))

/-- How far the handshake with a contract has come that has been told the given messages. -/
inductive Greets (ses : Session) (heard : List Message) : Prop
  | waits (created : ses.phase = .created) (silent : heard = []) (commands : ses.commands = [])
      (queue : ses.pool.queue = []) (dials : ses.dials = [])
  | told (established : ses.phase = .established) (told : heard = [{ kind := .registered }])
      (commands : ses.commands = [.next { message := { kind := .ready }, forward := true }])
      (queue : ses.pool.queue = []) (dials : ses.dials = [])
  | welcomes {more : List Message} (ready : ses.phase = .ready)
      (told : heard = { kind := .registered } :: more)
      (greeted : { kind := .ready } ∈ more ∨
        .next { message := { kind := .ready }, forward := true } ∈ ses.commands)

variable {n : Node} {ses ses' : Session}

/-! ## Sessions stay lone -/

theorem Uncalled.reply (h : ses.Uncalled) (kind : RequestKind) (r : Message) :
    ses.reply kind r = match kind.route with
      | .direct => ses.speak [r]
      | .outbound =>
        { ses with commands := ses.commands ++ [.next { message := r, forward := true }] } := by
  unfold Session.reply
  cases kind.route with
  | direct => exact sendAnyway_of_isOpen h.isOpen r
  | outbound => simp [trigger, enqueue, h.outbound]

theorem Lone.reply (h : ses.Lone) (kind : RequestKind) {r : Message} (failure : r.kind = .error) :
    (ses.reply kind r).Lone := by
  rw [h.toUncalled.reply]
  cases kind.route with
  | direct => exact ⟨h.toUncalled.speak [r], h.parked, h.ordered, h.tasks, h.arrivals⟩
  | outbound =>
    refine ⟨⟨h.inbound, h.outbound, h.isOpen, h.more, h.there, h.waiter, h.transactions, h.idle,
      h.busy⟩, h.parked, fun i mem => ?_, h.tasks, h.arrivals⟩
    rcases List.mem_append.1 mem with mem | mem
    · exact h.ordered i mem
    · exact ⟨r, .inr failure, List.mem_singleton.1 mem⟩

theorem Lone.took (h : ses.Lone) {a : Except StreamError Message}
    {rest : List (Except StreamError Message)} (next : ses.link.inbox.queue = a :: rest) :
    (ses.took rest).Lone :=
  ⟨⟨h.inbound, h.outbound, h.isOpen, h.more, h.there, h.waiter, h.transactions, h.idle, h.busy⟩,
    h.parked, h.ordered, h.tasks, fun b mem => h.arrivals b (next ▸ List.mem_cons_of_mem a mem)⟩

theorem Lone.shorter (h : ses.Lone) {i : Instruction} {rest : List Instruction}
    (queued : ses.commands = i :: rest) : Lone { ses with commands := rest } :=
  ⟨⟨h.inbound, h.outbound, h.isOpen, h.more, h.there, h.waiter, h.transactions, h.idle, h.busy⟩,
    h.parked, fun j mem => h.ordered j (queued ▸ List.mem_cons_of_mem i mem), h.tasks, h.arrivals⟩

theorem Lone.speak (h : ses.Lone) (ms : List Message) : (ses.speak ms).Lone :=
  ⟨h.toUncalled.speak ms, h.parked, h.ordered, h.tasks, h.arrivals⟩

theorem Lone.inPhase (h : ses.Lone) (phase : Phase) : Lone { ses with phase } :=
  ⟨⟨h.inbound, h.outbound, h.isOpen, h.more, h.there, h.waiter, h.transactions, h.idle, h.busy⟩,
    h.parked, h.ordered, h.tasks, h.arrivals⟩

theorem Lone.withQueue (h : ses.Lone) {queue : List (Task Job)}
    (tasks : ∀ t ∈ queue, ∃ job, t = .job job) :
    Lone { ses with pool := { ses.pool with queue } } :=
  ⟨⟨h.inbound, h.outbound, h.isOpen, h.more, h.there, h.waiter, h.transactions, h.idle, h.busy⟩,
    h.parked, h.ordered, tasks, h.arrivals⟩

theorem Lone.withDials (h : ses.Lone) (dials : List Message) : Lone { ses with dials } :=
  ⟨⟨h.inbound, h.outbound, h.isOpen, h.more, h.there, h.waiter, h.transactions, h.idle, h.busy⟩,
    h.parked, h.ordered, h.tasks, h.arrivals⟩

theorem Lone.relieved (h : ses.Lone) {task : Task Job} {rest : List (Task Job)}
    (queued : ses.pool.queue = task :: rest) :
    Lone { ses with pool := { ses.pool with queue := rest } } :=
  h.withQueue fun t mem => h.tasks t (queued ▸ List.mem_cons_of_mem task mem)

theorem Does.lone (h : ses.Does n ses') (lone : ses.Lone) : ses'.Lone := by
  cases h with
  | drops next => exact lone.took next
  | enlists next =>
    have h := (lone.took next).speak [{ kind := .registered }]
    refine ⟨⟨h.inbound, h.outbound, h.isOpen, h.more, h.there, h.waiter, h.transactions, h.idle,
      h.busy⟩, h.parked, fun i mem => ?_, h.tasks, h.arrivals⟩
    rcases List.mem_append.1 mem with mem | mem
    · exact lone.ordered i mem
    · exact ⟨_, .inl rfl, List.mem_singleton.1 mem⟩
  | readies next => exact (lone.took next).inPhase _
  | @queues job _ next =>
    refine (lone.took next).withQueue fun t mem => ?_
    rcases List.mem_append.1 mem with mem | mem
    · exact lone.tasks t mem
    · exact ⟨job, List.mem_singleton.1 mem⟩
  | spawns next => exact (lone.took next).withDials _
  | announces queued => exact ((lone.shorter queued).speak _).inPhase _
  | forwards queued => exact (lone.shorter queued).speak _
  | refuses queued => exact (lone.relieved queued).reply _ rfl
  | declines => exact (lone.withDials _).reply _ rfl

/-! ## What the contract is told -/

/-- What is on its way from the contract is part of the account. -/
theorem account_took {m : Message} {rest : List (Except StreamError Message)}
    (next : ses.link.inbox.queue = .ok m :: rest) :
    (ses.took rest).account + ↑m.refusal?.toList = ses.account := by
  have arrived : ses.link.inbox.queue.filterMap refusalOf? =
      m.refusal?.toList ++ rest.filterMap refusalOf? := by
    rw [next]
    cases refused : m.refusal? with
    | none => exact List.filterMap_cons_none refused
    | some r => exact List.filterMap_cons_some refused
  simp only [account, arrived, ← Multiset.coe_add, took, withInbox]
  ac_rfl

/-- What is said to the contract comes on its account. -/
theorem account_speak (ses : Session) (ms : List Message) :
    (ses.speak ms).account = ses.account + ↑ms := by
  simp only [account, speak, ← Multiset.coe_add]
  ac_rfl

theorem account_sent (ses : Session) (m : Message) :
    (ses.withInbox { ses.link.inbox with queue := ses.link.inbox.queue ++ [.ok m] }).account =
      ses.account + ↑m.refusal?.toList := by
  have arrived : [Except.ok m].filterMap refusalOf? = m.refusal?.toList := by
    cases refused : m.refusal? with
    | none => exact List.filterMap_cons_none refused
    | some r => exact List.filterMap_cons_some refused
  simp only [account, withInbox, List.filterMap_append, arrived, ← Multiset.coe_add]
  ac_rfl

theorem account_drain (ses : Session) :
    ↑ses.link.outbox.queue + account { ses with link := ses.link.drain.2 } = ses.account := by
  simp only [account, Link.drain, Multiset.coe_nil, zero_add, add_assoc]

theorem account_ordered {m : Message} {rest : List Instruction}
    (queued : ses.commands = .next { message := m, forward := true } :: rest) :
    account { ses with commands := rest } + {m} = ses.account := by
  have due : ses.commands.filterMap Instruction.forwarded? =
      [m] ++ rest.filterMap Instruction.forwarded? := by
    rw [queued]
    rfl
  simp only [account, due, ← Multiset.coe_add, Multiset.coe_singleton]
  ac_rfl

theorem account_order (ses : Session) (m : Message) :
    account { ses with commands := ses.commands ++ [Instruction.next
      { message := m, forward := true }] } = ses.account + {m} := by
  have due : [Instruction.next { message := m, forward := true }].filterMap
      Instruction.forwarded? = [m] := rfl
  simp only [account, List.filterMap_append, due, ← Multiset.coe_add, Multiset.coe_singleton]
  ac_rfl

theorem account_reply (h : ses.Uncalled) (kind : RequestKind) (r : Message) :
    (ses.reply kind r).account = ses.account + {r} := by
  rw [h.reply]
  cases kind.route with
  | direct => exact account_speak ses [r]
  | outbound => exact account_order ses r

theorem account_queued {job : Job} {rest : List (Task Job)}
    (queued : ses.pool.queue = .job job :: rest) :
    account { ses with pool := { ses.pool with queue := rest } } + {job.refused} = ses.account := by
  have jobs : ses.pool.queue.filterMap Task.job? = [job] ++ rest.filterMap Task.job? := by
    rw [queued]
    rfl
  simp only [account, WorkerPool.jobs, jobs, ← Multiset.coe_add, Multiset.map_add,
    Multiset.coe_singleton, Multiset.map_singleton]
  ac_rfl

theorem account_queue (ses : Session) (job : Job) :
    account { ses with pool := { ses.pool with queue := ses.pool.queue ++ [.job job] } } =
      ses.account + {job.refused} := by
  have jobs : [Task.job job].filterMap Task.job? = [job] := rfl
  simp only [account, WorkerPool.jobs, List.filterMap_append, jobs, ← Multiset.coe_add,
    Multiset.map_add, Multiset.coe_singleton, Multiset.map_singleton]
  ac_rfl

theorem account_dial (ses : Session) (m : Message) :
    (ses.dial m).account = ses.account + {Job.refused ⟨.invoke, m⟩} := by
  simp only [account, dial, List.map_append, List.map_singleton, ← Multiset.coe_add,
    Multiset.coe_singleton]
  ac_rfl

theorem account_dialled {m : Message} (dialled : m ∈ ses.dials) :
    (ses.pickUp m).account + {Job.refused ⟨.invoke, m⟩} = ses.account := by
  have calls : (↑(ses.dials.map fun m => Job.refused ⟨.invoke, m⟩) : Multiset Message) =
      {Job.refused ⟨.invoke, m⟩} + ↑((ses.dials.erase m).map fun m => Job.refused ⟨.invoke, m⟩) :=
    Multiset.coe_eq_coe.2 ((List.perm_cons_erase dialled).map _)
  simp only [account, calls, pickUp]
  ac_rfl

/-- What a lone session does brings its contract nothing that is not on its account, but for what
it is told when it registers. -/
theorem Does.account (h : ses.Does n ses') (lone : ses.Lone) :
    ses'.account + ses.phase.greeting ≤ ses.account + ses'.phase.greeting := by
  cases h with
  | drops next =>
    rw [← account_took next]
    exact add_le_add_left (Multiset.le_add_right ..) _
  | @enlists m rest id next created admits =>
    have silent : m.refusal? = none := by
      rcases admits.wants with kind | kind
      all_goals simp [Message.refusal?, Message.job?, kind, Event.ofKind?, RequestKind.ofEvent?]
    rw [created, ← account_took next, silent]
    refine le_of_eq ((congrArg (· + 0) (account_order ((ses.took rest).speak
      [{ kind := .registered }]) { kind := .ready })).trans ?_)
    rw [account_speak]
    simp only [Option.toList_none, Multiset.coe_nil, add_zero, add_assoc]
    rfl
  | @readies m rest next established kind =>
    have silent : m.refusal? = none := by
      simp [Message.refusal?, Message.job?, kind, Event.ofKind?, RequestKind.ofEvent?]
    rw [established, ← account_took next, silent]
    exact le_of_eq (congrArg (· + _) (add_zero _).symm)
  | @queues job rest next ready asks =>
    rw [← account_took next, Message.refusal?_of_asks asks]
    exact le_of_eq (congrArg (· + _) (account_queue (ses.took rest) job))
  | @spawns m rest next ready asks =>
    rw [← account_took next, Message.refusal?_of_asks asks]
    exact le_of_eq (congrArg (· + _) (account_dial (ses.took rest) m))
  | @announces m rest queued established kind =>
    rw [established, ← account_ordered queued]
    exact le_of_eq (congrArg (· + _) (account_speak { ses with commands := rest } [m]))
  | @forwards m rest queued ready =>
    rw [← account_ordered queued]
    exact le_of_eq (congrArg (· + _) (account_speak { ses with commands := rest } [m]))
  | @refuses job rest queued =>
    have apart := (lone.relieved queued).toUncalled
    rw [← account_queued queued, ← account_reply apart, apart.reply]
    cases job.kind.route <;> exact le_rfl
  | @declines m dialled =>
    have apart : (ses.pickUp m).Uncalled := (lone.withDials _).toUncalled
    rw [← account_dialled dialled, ← account_reply apart, apart.reply]
    exact le_rfl

/-! ## How far the handshake has come -/

theorem Greets.of_eq {heard : List Message} (h : ses.Greets heard) (phase : ses'.phase = ses.phase)
    (commands : ses'.commands = ses.commands) (queue : ses'.pool.queue = ses.pool.queue)
    (dials : ses'.dials = ses.dials) : ses'.Greets heard := by
  cases h with
  | waits created silent none idle quiet =>
    exact .waits (phase.trans created) silent (commands.trans none) (queue.trans idle)
      (dials.trans quiet)
  | told established told one idle quiet =>
    exact .told (phase.trans established) told (commands.trans one) (queue.trans idle)
      (dials.trans quiet)
  | welcomes ready told greeted =>
    exact .welcomes (phase.trans ready) told (commands.symm ▸ greeted)

theorem Greets.live {heard : List Message} (h : ses.Greets heard) : ses.phase ≠ .ended := by
  cases h with
  | waits phase | told phase | welcomes phase => exact phase ▸ Phase.noConfusion

theorem Greets.reply {read : List Message} (greets : ses.Greets (read ++ ses.link.outbox.queue))
    (ready : ses.phase = .ready) (uncalled : ses.Uncalled) (kind : RequestKind) (r : Message) :
    (ses.reply kind r).Greets (read ++ (ses.reply kind r).link.outbox.queue) := by
  cases greets with
  | waits other | told other => rw [ready] at other; cases other
  | @welcomes more _ told greeted =>
    rw [uncalled.reply]
    cases kind.route with
    | direct =>
      have heard : read ++ (ses.link.outbox.queue ++ [r]) =
          { kind := .registered } :: (more ++ [r]) := by
        rw [← List.append_assoc, told, List.cons_append]
      exact .welcomes ready heard (greeted.imp_left (List.mem_append_left _))
    | outbound => exact .welcomes ready told (greeted.imp_right (List.mem_append_left _))

/-- Before its contract has registered, a lone session does nothing but receive messages. -/
theorem Does.of_created (h : ses.Does n ses') {heard : List Message} (greets : ses.Greets heard)
    (created : ses.phase = .created) : ∃ m rest, ses.link.inbox.queue = .ok m :: rest ∧
      ((∀ id, ¬ n.Admits m id) ∧ ses'.phase = .created ∨
        (∃ id, n.Admits m id) ∧ ses'.phase = .established) := by
  cases greets with
  | told other | welcomes other => rw [created] at other; cases other
  | waits _ _ commands queue dials =>
    cases h with
    | drops next unadmitted => exact ⟨_, _, next, .inl ⟨unadmitted created, created⟩⟩
    | enlists next _ admits => exact ⟨_, _, next, .inr ⟨⟨_, admits⟩, rfl⟩⟩
    | readies _ other | queues _ other | spawns _ other => rw [created] at other; cases other
    | announces queued | forwards queued => rw [commands] at queued; cases queued
    | refuses queued => rw [queue] at queued; cases queued
    | declines dialled => rw [dials] at dialled; cases dialled

/-- The handshake goes on, and what a contract has heard it has heard. -/
theorem Does.greets (h : ses.Does n ses') (lone : ses.Lone) {read : List Message}
    (greets : ses.Greets (read ++ ses.link.outbox.queue)) :
    ses'.Greets (read ++ ses'.link.outbox.queue) := by
  cases greets with
  | waits created silent commands queue dials =>
    cases h with
    | drops next => exact .waits created silent commands queue dials
    | enlists next =>
      refine .told rfl ?_ (congrArg (· ++ _) commands) queue dials
      show read ++ (ses.link.outbox.queue ++ _) = _
      rw [← List.append_assoc, silent]
      rfl
    | readies _ other | queues _ other | spawns _ other => rw [created] at other; cases other
    | announces queued | forwards queued => rw [commands] at queued; cases queued
    | refuses queued => rw [queue] at queued; cases queued
    | declines dialled => rw [dials] at dialled; cases dialled
  | told established told commands queue dials =>
    cases h with
    | drops next => exact .told established told commands queue dials
    | readies next => exact .welcomes rfl told (.inr (commands ▸ List.mem_singleton_self _))
    | announces queued =>
      rw [commands] at queued
      cases queued
      have heard : read ++ (ses.link.outbox.queue ++ [{ kind := .ready }]) =
          [{ kind := .registered }, { kind := .ready }] := by
        rw [← List.append_assoc, told]
        rfl
      exact .welcomes rfl heard (.inl (List.mem_singleton_self _))
    | enlists _ other | queues _ other | spawns _ other | forwards _ other =>
      rw [established] at other
      cases other
    | refuses queued => rw [queue] at queued; cases queued
    | declines dialled => rw [dials] at dialled; cases dialled
  | @welcomes more ready told greeted =>
    cases h with
    | drops | queues | spawns => exact .welcomes ready told greeted
    | enlists _ other | readies _ other | announces _ other => rw [ready] at other; cases other
    | @forwards m rest queued =>
      have heard : read ++ (ses.link.outbox.queue ++ [m]) =
          { kind := .registered } :: (more ++ [m]) := by
        rw [← List.append_assoc, told, List.cons_append]
      refine .welcomes ready heard ?_
      rcases greeted with greeted | greeted
      · exact .inl (List.mem_append_left _ greeted)
      · rw [queued] at greeted
        rcases List.mem_cons.1 greeted with first | later
        · cases first
          exact .inl (List.mem_append_right _ (List.mem_singleton_self _))
        · exact .inr later
    | @refuses job rest queued =>
      have rested : Greets { ses with pool := { ses.pool with queue := rest } }
        (read ++ ses.link.outbox.queue) := .welcomes ready told greeted
      exact rested.reply ready (lone.relieved queued).toUncalled ..
    | @declines m =>
      have rested : (ses.pickUp m).Greets (read ++ ses.link.outbox.queue) :=
        .welcomes ready told greeted
      exact rested.reply ready (lone.withDials _).toUncalled ..

end Session

end ContractNode
