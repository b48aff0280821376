import ContractNode.Ledger.Drill
import ContractNode.Node.Directory
import ContractNode.Session.Basic

/-!
# Nodes

A node has a ledger, a directory, and any number of sessions that share both.

* `Origin`, `Call` : who waits for an execution, and an execution that waits for its contract;
* `Node` : the state of a node;
* `Node.session?`, `Node.modify`, `Node.modifyContext` : its parts;
* `Node.deadline?` : when an execution that begins now runs out of time;
* `Node.register`, `Node.deregister` : a contract registers on a session, and a session gives its
  key in the directory up;
* `Node.answer` : a request is answered.
-/

namespace ContractNode

/-- Who waits for an execution. -/
inductive Origin
  /-- A caller from outside, who is known by a label. -/
  | caller (label : String)
  /-- A call request that a session's contract made in the context of the given number. -/
  | request (session : SessionId) (context : Nat) (message : Message)
deriving DecidableEq, Repr

/-- An execution that waits for its contract. -/
structure Call where
  /-- The session whose contract runs the transaction. -/
  session : SessionId
  /-- The number of the transaction's context on that session. -/
  context : Nat
  origin : Origin
  /-- The time at which it ends without an answer, if it does not wait for ever. -/
  deadline : Option Nat := none
deriving DecidableEq, Repr

structure Node where
  ledger : Ledger := {}
  /-- The channels whose history cannot be read. -/
  historyless : List String := []
  drill : Drill := {}
  /-- The keys that cannot be read for now. -/
  gates : List String := []
  directory : Directory := {}
  /-- Every session so far; its place is its number. -/
  sessions : List Session := []
  calls : List Call := []
  /-- The results of executions for callers from outside. -/
  results : List (String × Except SessionError Message) := []
  /-- The number of cursors opened so far. -/
  cursorCount : Nat := 0
  /-- The time that has passed, in milliseconds. -/
  clock : Nat := 0

namespace Node

/-! ## Parts -/

def session? (n : Node) (s : SessionId) : Option Session := n.sessions[s]?

def modify (n : Node) (s : SessionId) (f : Session → Session) : Node :=
  { n with sessions := n.sessions.modify s f }

def modifyContext (n : Node) (s : SessionId) (c : Nat) (f : Context → Context) : Node :=
  n.modify s fun ses => { ses with transactions := ses.transactions.modify c f }

def context? (n : Node) (s : SessionId) (c : Nat) : Option Context :=
  (n.session? s).bind fun ses => ses.transactions.context? c

/-- The right to read the history on a channel, if there is any. -/
def historian? (n : Node) (channel : String) : Option Historian :=
  if n.historyless.contains channel then none else (n.ledger.historian channel).toOption

/-- The time at which an execution on a session that begins now ends without an answer, if the
session does not wait for ever. -/
def deadline? (n : Node) (s : SessionId) : Option Nat :=
  (n.session? s).bind fun ses => ses.config.timeout.map (n.clock + ·)

/-- The text of a cursor's number, in twelve hexadecimal places. -/
def cursorPlaces (k : Nat) : List Char :=
  (List.range 12).map fun i => Nat.digitChar (k / Nat.pow 16 (11 - i) % 16)

def cursorId (k : Nat) : String := "5ca1ab1e-0c5e-4000-8000-" ++ String.ofList (cursorPlaces k)

/-! ## Registration -/

/-- A session gives its key in the directory up, if it holds one. `Leaving` has the statements of this
one at a time. -/
def deregister (n : Node) (s : SessionId) : Node :=
  match n.session? s with
  | none => n
  | some ses =>
    if ses.isRegistered then
      let n' := n.modify s fun ses => { ses with isRegistered := false }
      match ses.place with
      | none => n'
      | some i => { n' with directory := n'.directory.deregister i.key }
    else n

def send (n : Node) (s : SessionId) (m : Message) : Except SessionError Unit × Node :=
  match n.session? s with
  | none => (.error .sessionClosed, n)
  | some ses =>
    match ses.send m with
    | .error e => (.error e, n)
    | .ok ses' => (.ok (), n.modify s fun _ => ses')

/-- The contract of a session registers. Its key goes to the session, its identity is kept, and it
is told so; if that cannot be sent, the key is given up again. `Joining` has the statements of this
one at a time. -/
def register (n : Node) (s : SessionId) (m : Message) : Except SessionError Unit × Node :=
  match ContractId.codec.decode m.payload with
  | .error e => (.error (.codec e), n)
  | .ok id =>
    let place := ContractInstance.ofName id.name
    match n.directory.register place.key s with
    | .error e => (.error (.registration e), n)
    | .ok directory =>
      let n' := { n with directory }.modify s fun ses =>
        { ses with isRegistered := true, identity := some id, place := some place }
      match n'.send s { kind := .registered } with
      | (.error e, n'') => (.error e, n''.deregister s)
      | (.ok (), n'') => (.ok (), n'')

/-! ## Answers -/

/-- The answer to a request: its result, or the wording of the failure. -/
def reply (m : Message) (result : Except SessionError Bytes) : Message :=
  match result with
  | .ok payload => { kind := .response, channel := m.channel, tx := m.tx, payload }
  | .error e =>
    { kind := .error, channel := m.channel, tx := m.tx, payload := Text.bytes e.message }

/-- A request is answered: its marker is given back, and the answer goes its way. -/
def answer (n : Node) (s : SessionId) (job : Job) (result : Except SessionError Bytes) : Node :=
  n.modify s fun ses =>
    let ses' :=
      { ses with transactions := ses.transactions.unmark job.message.channel job.message.tx }
    match job.kind.route with
    | .direct => ses'.sendAnyway (reply job.message result)
    | .outbound => (ses'.trigger (reply job.message result) true).2

end Node

end ContractNode
