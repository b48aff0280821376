import ContractNode.Stream.Pair

/-!
# The connection of a session

* `Link` : the node's view of the connection to a contract: what arrives, or how receiving fails,
  and what was sent;
* `Link.send`, `Link.deliver` : what goes to the contract, and what comes from it.
-/

namespace ContractNode

/-- The node's view of the connection to a contract. -/
structure Link where
  /-- What arrives from the contract; a failure stands for a receive that fails. -/
  inbox : Pipe (Except StreamError Message) := {}
  /-- What was sent to the contract and not read by it yet. -/
  outbox : Pipe Message := {}
  /-- Every send fails while the connection is broken. -/
  broken : Bool := false

namespace Link

def send (l : Link) (m : Message) : Except StreamError Link :=
  if l.broken then .error (.connection "injected send")
  else match l.outbox.send m with
    | none => .error .disconnected
    | some p => .ok { l with outbox := p }

def close (l : Link) : Link := { l with outbox := l.outbox.close }

/-- Something is on its way from the contract: a message, or a receive that will fail. -/
def deliver (l : Link) (arrival : Except StreamError Message) : Except StreamError Link :=
  match l.inbox.send arrival with
  | none => .error .disconnected
  | some p => .ok { l with inbox := p }

def closeContract (l : Link) : Link := { l with inbox := l.inbox.close }

def dropContract (l : Link) : Link :=
  { l with inbox := l.inbox.close, outbox := l.outbox.abandon }

def drain (l : Link) : List Message × Link :=
  (l.outbox.queue, { l with outbox := { l.outbox with queue := [] } })

end Link

end ContractNode
