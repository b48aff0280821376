import ContractNode.Node.Rest
import Mathlib.Logic.Relation

/-!
# What turns are made of

A turn of a loop, of a worker, of a thread or of a waiting execution does one or more indivisible
things. A property that each of them keeps is kept by every turn.

* `Chore` : what touches neither the transactions of a session nor the executions that wait;
* `Deed` : an indivisible thing, a chore or one that does touch them;
* `Path` : any number of deeds in a row;
* `Transactions.enroll`, `Transactions.bury` : a context that is registered with its slot handed
  out, and one that is kept in the list only;
* `Session.claim`, `Session.reply` : claiming the marker of a request, and sending its answer off.
-/

namespace ContractNode

/-- Registers a context, whose slot has been handed out. -/
def Transactions.enroll (t : Transactions) (c : Context) : Transactions :=
  { t with
    contexts := t.contexts ++ [{ c with slot := c.slot.take.2 }]
    index := t.index.insert c.key t.contexts.length }

/-- Keeps a context that is not registered. -/
def Transactions.bury (t : Transactions) (c : Context) : Transactions :=
  { t with contexts := t.contexts ++ [c] }

/-- What the context of a message's transaction is found under. -/
def Message.key (m : Message) : String := contextKey m.channel m.tx

def Transactions.claim (k : String) (t : Transactions) : Transactions :=
  { t with markers := k :: t.markers }

def Session.claim (k : String) (ses : Session) : Session :=
  { ses with transactions := ses.transactions.claim k }

/-- Sends the answer to a request off. -/
def Session.reply (kind : RequestKind) (m : Message) (ses : Session) : Session :=
  match kind.route with
  | .direct => ses.sendAnyway m
  | .outbound => (ses.trigger m true).2

def Request.kind : Request → RequestKind
  | .get _ => .get
  | .put _ => .put
  | .delete _ => .delete
  | .range _ => .range
  | .query _ => .query
  | .history _ => .history
  | .next _ => .next
  | .close _ => .close
  | .invoke _ => .invoke

theorem Request.kind_of_decode {kind : RequestKind} {payload : Bytes} {r : Request}
    (h : Request.decode kind payload = .ok r) : r.kind = kind := by
  have mapped {α : Type} {x : Except CodecError α} {f : α → Request}
      (h : x.map f = .ok r) : ∃ a, r = f a := by
    cases x with
    | error e => cases h
    | ok a => exact ⟨a, (Except.ok.inj h).symm⟩
  cases kind
  all_goals
    obtain ⟨a, rfl⟩ := mapped h
    rfl

namespace Node

/-- An indivisible thing that touches neither transactions nor executions. -/
inductive Chore : Node → Node → Prop
  /-- Something that has arrived leaves the inbox. -/
  | receive {n : Node} {s : SessionId} {ses : Session} {a : Except StreamError Message}
      {inbox : Pipe (Except StreamError Message)} (found : n.session? s = some ses)
      (running : ses.inbound = .running) (taken : ses.link.inbox.receive = (.item a, inbox)) :
      Chore n (n.modify s (·.withInbox inbox))
  | send {n : Node} {s : SessionId} {ses : Session} {m : Message} {link : Link}
      (found : n.session? s = some ses) (sent : ses.link.send m = .ok link) :
      Chore n (n.modify s fun ses => { ses with link })
  | enqueue {n : Node} {s : SessionId} {ses : Session} (c : Command)
      (found : n.session? s = some ses) (on : ses.outbound ≠ .stopped) :
      Chore n (n.modify s fun ses => { ses with commands := ses.commands ++ [.next c] })
  | dequeue {n : Node} {s : SessionId} {ses : Session} {c : Command} {rest : List Instruction}
      (found : n.session? s = some ses) (running : ses.outbound = .running)
      (queued : ses.commands = .next c :: rest) :
      Chore n (n.modify s fun ses => { ses with commands := rest })
  /-- A message that a ready lifecycle takes becomes a job for the workers. -/
  | submit {n : Node} {s : SessionId} {ses : Session} {job : Job} {pool : WorkerPool Job}
      (found : n.session? s = some ses) (ready : ses.phase = .ready)
      (submitted : ses.pool.submit job = (true, pool)) :
      Chore n (n.modify s fun ses => { ses with pool })
  /-- A call request that a ready lifecycle takes gets a thread of its own. -/
  | spawn {n : Node} {s : SessionId} {ses : Session} (m : Message)
      (found : n.session? s = some ses) (ready : ses.phase = .ready) :
      Chore n (n.modify s (·.dial m))
  /-- The thread starts. -/
  | pickUp {n : Node} (s : SessionId) (m : Message) :
      Chore n (n.modify s (·.pickUp m))
  | take {n : Node} {s : SessionId} {ses : Session} {t : Task Job} {pool : WorkerPool Job}
      (found : n.session? s = some ses) (taken : ses.pool.take = some (t, pool)) :
      Chore n (n.modify s fun ses => { ses with pool })
  | free {n : Node} (s : SessionId) (job : Job) :
      Chore n (n.modify s fun ses => { ses with pool := ses.pool.finish job })
  | register {n n' : Node} {s : SessionId} {ses : Session} {m : Message}
      (found : n.session? s = some ses) (created : ses.phase = .created)
      (registered : n.register s m = (.ok (), n')) :
      Chore n ((n'.modify s Session.announce).setPhase s .established)
  | refuse {n n' : Node} {s : SessionId} {ses : Session} {m : Message} {e : SessionError}
      (found : n.session? s = some ses) (created : ses.phase = .created)
      (refused : n.register s m = (.error e, n')) : Chore n (n'.setPhase s .created)
  | deregister {n : Node} (s : SessionId) : Chore n (n.deregister s)
  /-- A ledger is written. -/
  | write {n : Node} (ledger : Ledger) : Chore n { n with ledger }
  | tick {n : Node} (clock : Nat) : Chore n { n with clock }

/-- An indivisible thing that a node does by itself. -/
inductive Deed : Node → Node → Prop
  | chore {n n' : Node} (done : Chore n n') : Deed n n'
  | notify {n : Node} (s : SessionId) (m : Message) : Deed n (n.modify s (·.notify m))
  /-- A lifecycle becomes ready. -/
  | getReady {n : Node} {s : SessionId} {ses : Session} (m : Message)
      (found : n.session? s = some ses) (established : ses.phase = .established) :
      Deed n ((n.modify s (·.notify m)).setPhase s .ready)
  | stopInbound {n : Node} {s : SessionId} {ses : Session} (found : n.session? s = some ses)
      (running : ses.inbound = .running) : Deed n (n.stopInbound s)
  | stopOutbound {n : Node} {s : SessionId} {ses : Session} (found : n.session? s = some ses)
      (running : ses.outbound = .running) : Deed n (n.stopOutbound s)
  /-- The outbound loop finds that it is to stop. -/
  | shutdown {n : Node} {s : SessionId} {ses : Session} {rest : List Instruction}
      (found : n.session? s = some ses) (running : ses.outbound = .running)
      (queued : ses.commands = .shutdown :: rest) :
      Deed n ((n.modify s fun ses => { ses with commands := rest }).stopOutbound s)
  /-- A cursor is opened in the context of a request. -/
  | openCursor {n : Node} {s : SessionId} {ses : Session} {channel tx : String} {c : Nat}
      {ctx : Context} (scan : Scan) (found : n.session? s = some ses)
      (registered : ses.transactions.find? channel tx = some c)
      (known : ses.transactions.context? c = some ctx) :
      Deed n { n.modifyCursors s c
          (ctx.cursors.openCursor ses.config.maxBatch (cursorId n.cursorCount) scan).2 with
        cursorCount := n.cursorCount + 1 }
  /-- A cursor is read on in the context of a request. -/
  | advance {n : Node} {s : SessionId} {ses : Session} {channel tx : String} {c : Nat}
      {ctx : Context} (id : String) (found : n.session? s = some ses)
      (registered : ses.transactions.find? channel tx = some c)
      (known : ses.transactions.context? c = some ctx) :
      Deed n (n.modifyCursors s c (ctx.cursors.advance ses.config.maxBatch id).2)
  | closeCursor {n : Node} {s : SessionId} {ses : Session} {channel tx : String} {c : Nat}
      {ctx : Context} (id : String) (found : n.session? s = some ses)
      (registered : ses.transactions.find? channel tx = some c)
      (known : ses.transactions.context? c = some ctx) :
      Deed n (n.modifyCursors s c (ctx.cursors.close id))
  /-- A context is made for nothing, since the session has stopped. -/
  | bury {n : Node} {s : SessionId} {ses : Session} (c : Context)
      (found : n.session? s = some ses) (stopped : ses.outbound = .stopped)
      (fresh : ses.transactions.index.get? c.key = none) (given : c.cursors = {}) :
      Deed n (n.modify s fun ses => { ses with transactions := ses.transactions.bury c })
  /-- A read that waits for its key keeps the marker of its transaction. -/
  | park {n : Node} {s : SessionId} {ses : Session} {ctx : Context} {p : ParkedRead}
      (found : n.session? s = some ses)
      (free : p.job.message.key ∉ ses.transactions.markers)
      (registered : ses.transactions.find? p.job.message.channel p.job.message.tx =
        some p.context)
      (known : ses.transactions.context? p.context = some ctx)
      (right : ctx.simulator = some p.simulator) :
      Deed n (n.modify s fun ses =>
        { ses.claim p.job.message.key with
          parked := ses.parked ++ [p] })
  | unpark {n : Node} {s : SessionId} {ses : Session} {p : ParkedRead}
      (found : n.session? s = some ses) (parked : p ∈ ses.parked) :
      Deed n (n.modify s fun ses =>
        { ses with
          parked := ses.parked.erase p, pool := ses.pool.finish p.job
          transactions :=
            ses.transactions.unmark p.job.message.channel p.job.message.tx })
  /-- A call is begun, which keeps the marker of its transaction. -/
  | call {n n' : Node} {s t : SessionId} {ses : Session} {ctx : Context} {c : Nat} {m : Message}
      {spec : CallSpec} {rights : Simulator × Option Historian} (found : n.session? s = some ses)
      (free : m.key ∉ ses.transactions.markers)
      (registered : ses.transactions.find? m.channel m.tx = some c)
      (known : ses.transactions.context? c = some ctx)
      (righted : n.callRights ctx (spec.target ctx.channel) = .ok rights)
      (resolved : n.directory.resolve (spec.target ctx.channel) = .ok t)
      (begun : (n.modify s (·.claim m.key)).beginCall t
        (invocation ctx spec rights) (.request s c m) = (.ok (), n')) : Deed n n'
  | finish {n n' : Node} {call : Call} (waits : call ∈ n.calls)
      (finished : n.finish? call = some n') : Deed n n'
  | expire {n : Node} {call : Call} (waits : call ∈ n.calls) : Deed n (n.expire call)

abbrev Path : Node → Node → Prop := Relation.ReflTransGen Deed

end Node

end ContractNode
