import ContractNode.Lifecycle.Machine
import ContractNode.Request.Kind
import ContractNode.Session.Config
import ContractNode.Session.Invocation
import ContractNode.Session.Link
import ContractNode.Session.WorkerPool
import ContractNode.Transaction.Registry

/-!
# Sessions

A session is the node's side of the connection to one contract. It runs two loops. The inbound one
takes what arrives from the contract; the outbound one takes commands from a queue, of which some
are forwarded to the contract. Ledger requests run on workers, and calls of other contracts on
threads of their own.

* `Command`, `Instruction` : what stands in the outbound queue;
* `ReadyWaiter` : who wants to be told that a contract has registered;
* `Job`, `ParkedRead` : a request on a worker, and a read that waits for its key;
* `Session` : the state of a session;
* `Session.enqueue`, `Session.send`, `Session.submit`, `Session.dial`, `Session.pickUp` : what the parts
  of a session do to it;
* `Part`, `Session.assemble` : putting a session together.
-/

namespace ContractNode

/-- A message that the outbound loop shows to the lifecycle and, if asked to, forwards. -/
structure Command where
  message : Message
  /-- Forward the message to the contract. -/
  forward : Bool
  /-- If forwarding fails, the session ends. -/
  sync : Bool := false
deriving DecidableEq, Repr

/-- What stands in the outbound queue. -/
inductive Instruction
  | next (c : Command)
  | shutdown
deriving DecidableEq, Repr

/-- Where a loop is in its life. -/
inductive Loop
  | idle
  | running
  | stopped
deriving DecidableEq, Repr

/-- Who wants to be told that a contract has registered: room for a number of answers. -/
structure ReadyWaiter where
  capacity : Nat
  answers : List Bool := []
  dropped : Bool := false
deriving DecidableEq, Repr

/-- Tells a waiter, if it is there and has room. -/
def ReadyWaiter.tell (w : ReadyWaiter) (ok : Bool) : ReadyWaiter :=
  if !w.dropped && decide (w.answers.length < w.capacity) then
    { w with answers := w.answers ++ [ok] }
  else w

structure Job where
  kind : RequestKind
  message : Message
deriving DecidableEq, Repr

/-- A read that waits for its key, with everything it needs once it goes on. -/
structure ParkedRead where
  job : Job
  /-- The number of the transaction's context. -/
  context : Nat
  simulator : Simulator
  space : String
  ref : KeyRef
deriving DecidableEq, Repr

structure Session where
  config : SessionConfig := {}
  access : AccessPolicy := {}
  launcher : Launcher := .directory
  phase : Phase := .created
  /-- The identity that the contract stated. -/
  identity : Option ContractId := none
  place : Option ContractInstance := none
  /-- The session holds its key in the directory. -/
  isRegistered : Bool := false
  transactions : Transactions := {}
  link : Link := {}
  inbound : Loop := .idle
  outbound : Loop := .idle
  commands : List Instruction := []
  waiter : Option ReadyWaiter := none
  pool : WorkerPool Job := .ofSize config.workers
  /-- The call requests that wait for their threads to take them up. -/
  dials : List Message := []
  parked : List ParkedRead := []

namespace Session

/-- Whether the handshake is over. -/
def isRunning (s : Session) : Bool := s.phase == .ready || s.phase == .ended

/-- The namespace that requests of the contract are about: the name of the contract. -/
def space (s : Session) : Except SessionError String :=
  match s.place with
  | none => .error .notRegistered
  | some i => .ok i.name

/-- Queues a command; gives `false` if the outbound loop has stopped. -/
def enqueue (s : Session) (c : Command) : Bool × Session :=
  if s.outbound = .stopped then (false, s)
  else (true, { s with commands := s.commands ++ [.next c] })

/-- Queues a message to be shown to the lifecycle and, if asked to, forwarded. -/
def trigger (s : Session) (m : Message) (forward : Bool) : Bool × Session :=
  s.enqueue { message := m, forward }

def send (s : Session) (m : Message) : Except SessionError Session :=
  match s.link.send m with
  | .error e => .error (.stream e)
  | .ok link => .ok { s with link }

/-- Sends a message to the contract; that it fails makes no difference. -/
def sendAnyway (s : Session) (m : Message) : Session := (s.send m).toOption.getD s

def submit (s : Session) (job : Job) : Except SessionError Session :=
  match s.pool.submit job with
  | (true, pool) => .ok { s with pool }
  | (false, _) => .error .sessionClosed

def dial (s : Session) (m : Message) : Session := { s with dials := s.dials ++ [m] }

/-- The thread of a call request takes it up. -/
def pickUp (s : Session) (m : Message) : Session := { s with dials := s.dials.erase m }

/-- Hands a message to whoever waits for its transaction, and closes the transaction's cursors. -/
def notify (s : Session) (m : Message) : Session :=
  match s.transactions.find? m.channel m.tx with
  | none => s
  | some n => { s with transactions := s.transactions.modify n (·.notify m) }

/-- The text that ends what is under way when a session ends. -/
def farewell : Bytes := Text.bytes "contract session ended"

/-- Tells every transaction in flight that the session has ended, and closes its cursors. -/
def notifyAll (s : Session) : Session :=
  { s with
    transactions := s.transactions.registered.foldl
      (fun t n => t.modify n fun c => c.notify ⟨.error, c.channel, c.tx, farewell, none⟩)
      s.transactions }

/-- Tells the waiter that the contract has registered or, without one, has the contract told that
the node is ready. -/
def announce (s : Session) : Session :=
  match s.waiter with
  | some w => { s with waiter := some (w.tell true) }
  | none => (s.trigger { kind := .ready } true).2

def withInbox (s : Session) (inbox : Pipe (Except StreamError Message)) : Session :=
  { s with link := { s.link with inbox } }

/-- Has the loops and the workers stop after what is queued for them, and sends nothing more. -/
def stop (s : Session) : Session :=
  { s with
    commands := if s.outbound = .stopped then [] else s.commands ++ [.shutdown]
    pool := s.pool.shutdown
    link := s.link.close }

/-- Starts both loops, once. -/
def start (s : Session) : Except SessionError Session :=
  if s.outbound = .idle then .ok { s with inbound := .running, outbound := .running }
  else .error .alreadyRunning

end Session

/-! ## Putting a session together -/

/-- The parts that a session cannot do without. -/
inductive Part
  | stream
  | ledger
  | directory
  | launcher
deriving DecidableEq, Repr

namespace Part

def all : List Part := [.stream, .ledger, .directory, .launcher]

def name : Part → String
  | .stream => "stream"
  | .ledger => "ledger"
  | .directory => "handler_registry"
  | .launcher => "launcher"

end Part

/-- Puts a session together from the given parts; the first one that is missing is told. -/
def Session.assemble (parts : List Part) (config : SessionConfig) (access : AccessPolicy)
    (launcher : Launcher) : Except AssemblyError Session :=
  match Part.all.find? fun p => !parts.contains p with
  | some p => .error (.missingField p.name)
  | none => .ok { config, access, launcher }

end ContractNode
