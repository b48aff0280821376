import ContractNode.Node.Settle

/-!
# What can be done to a node

Everything that comes from outside: opening and starting sessions, what the contracts send, and what
the rest of the program asks of sessions. Afterwards the node comes to rest by `Node.settle`.

* `Node.withChannels` : a node without sessions;
* `Node.openSession`, `Node.start` : sessions;
* `Node.fromContract`, `Node.contractSends`, `Node.breakReceive`, `Node.contractCloses`,
  `Node.contractDrops`, `Node.breakSend`, `Node.drain` : the contract's side of a connection;
* `Node.trigger`, `Node.notify`, `Node.awaitReady` : the node's side;
* `Node.isHeld`, `Node.poll` : the receiving end of a transaction's slot;
* `Node.seed`, `Node.gate`, `Node.ungate` : the ledger.
-/

namespace ContractNode

namespace Node

/-! ## Nodes and sessions -/

def withChannels (channels historyless system : List String) (drill : Drill) : Node where
  ledger := channels.foldl Ledger.createChannel {}
  historyless := historyless
  drill := drill
  directory := { system }

def openSession (n : Node) (config : SessionConfig) (access : AccessPolicy) (launcher : Launcher) :
    SessionId × Node :=
  (n.sessions.length, { n with sessions := n.sessions ++ [{ config, access, launcher }] })

def start (n : Node) (s : SessionId) : Except SessionError Unit × Node :=
  match n.session? s with
  | none => (.error .sessionClosed, n)
  | some ses =>
    match ses.start with
    | .error e => (.error e, n)
    | .ok ses' => (.ok (), n.modify s fun _ => ses')

/-! ## The contract's side -/

def modifyLink (n : Node) (s : SessionId) (f : Link → Link) : Node :=
  n.modify s fun ses => { ses with link := f ses.link }

/-- Something is on its way from the contract, unless it has nothing more to send. -/
def fromContract (n : Node) (s : SessionId) (arrival : Except StreamError Message) :
    Except StreamError Unit × Node :=
  match n.session? s with
  | none => (.error .disconnected, n)
  | some ses =>
    match ses.link.deliver arrival with
    | .error e => (.error e, n)
    | .ok link => (.ok (), n.modifyLink s fun _ => link)

def contractSends (n : Node) (s : SessionId) (m : Message) : Except StreamError Unit × Node :=
  n.fromContract s (.ok m)

/-- A receive from the contract will fail, after what has arrived before. -/
def breakReceive (n : Node) (s : SessionId) (e : StreamError) : Except StreamError Unit × Node :=
  n.fromContract s (.error e)

def contractCloses (n : Node) (s : SessionId) : Node := n.modifyLink s Link.closeContract

def contractDrops (n : Node) (s : SessionId) : Node := n.modifyLink s Link.dropContract

/-- From now on sends to the contract fail, or do no longer. -/
def breakSend (n : Node) (s : SessionId) (broken : Bool) : Node :=
  n.modifyLink s fun l => { l with broken }

def drain (n : Node) (s : SessionId) : List Message × Node :=
  match n.session? s with
  | none => ([], n)
  | some ses => (ses.link.drain.1, n.modifyLink s fun l => l.drain.2)

/-! ## The node's side -/

/-- Queues a message on a session, to be shown to the lifecycle and, if asked to, forwarded. -/
def trigger (n : Node) (s : SessionId) (m : Message) (forward : Bool) : Bool × Node :=
  n.enqueue s { message := m, forward }

/-- Hands a message to whoever waits for its transaction. -/
def notify (n : Node) (s : SessionId) (m : Message) : Node := n.modify s (·.notify m)

/-- Somebody wants to be told when the contract has registered, with room for a number of
answers. -/
def awaitReady (n : Node) (s : SessionId) (capacity : Nat) : Node :=
  n.modify s fun ses => { ses with waiter := some { capacity } }

/-- Takes an answer to whoever wanted to be told. -/
def pollReady (n : Node) (s : SessionId) : Option Bool × Node :=
  match (n.session? s).bind (·.waiter) with
  | some { capacity, answers := a :: rest, dropped } =>
    (some a, n.modify s fun ses =>
      { ses with waiter := some { capacity, answers := rest, dropped } })
  | _ => (none, n)

/-- Nobody waits any more to be told. -/
def dropReady (n : Node) (s : SessionId) : Node :=
  n.modify s fun ses =>
    { ses with waiter := ses.waiter.map fun w => { w with answers := [], dropped := true } }

def registerKey (n : Node) (key : String) (s : SessionId) :
    Except RegistrationError Unit × Node :=
  match n.directory.register key s with
  | .error e => (.error e, n)
  | .ok directory => (.ok (), { n with directory })

def deregisterKey (n : Node) (key : String) : Node :=
  { n with directory := n.directory.deregister key }

/-- Whether anybody on the node still has to do with a context: it is registered, or an execution,
a call or a read under way was begun in it. -/
def isHeld (n : Node) (s : SessionId) (c : Nat) : Bool :=
  match n.session? s with
  | none => false
  | some ses =>
    ses.transactions.isRegistered c
      || ses.parked.any (fun p => p.context == c)
      || n.calls.any fun call =>
        (call.session == s && call.context == c)
          || match call.origin with
            | .caller _ => false
            | .request s' c' _ => s' == s && c' == c

def poll (n : Node) (s : SessionId) (c : Nat) : Option Message × Node :=
  match n.context? s c with
  | none => (none, n)
  | some ctx =>
    (ctx.slot.receive.1, n.modifyContext s c fun ctx => { ctx with slot := ctx.slot.receive.2 })

/-! ## The ledger -/

/-- Writes entries outside of any session. Those that are refused are left out. -/
def seed (n : Node) (channel tx space : String) (collection : Option String)
    (entries : List (String × Bytes)) : Except LedgerError Unit × Node :=
  match n.ledger.simulator channel tx with
  | .error e => (.error e, n)
  | .ok sim =>
    (.ok (), { n with
      ledger := entries.foldl
        (fun l e => (l.set sim space collection e.1 e.2).toOption.getD l) n.ledger })

/-- Reads of a key wait from now on. -/
def gate (n : Node) (key : String) : Node :=
  { n with gates := if n.gates.contains key then n.gates else key :: n.gates }

def ungate (n : Node) (key : String) : Node := { n with gates := n.gates.filter (· != key) }

end Node

end ContractNode
