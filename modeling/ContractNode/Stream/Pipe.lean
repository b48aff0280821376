/-!
# Pipes

* `Pipe α` : one direction of a connection, which keeps what was sent until it is received;
* `Pipe.send`, `Pipe.receive` : at its two ends;
* `Pipe.close`, `Pipe.abandon` : its sender has nothing more to send, and its receiver is gone.
-/

namespace ContractNode

/-- One direction of a connection. -/
structure Pipe (α : Type) where
  /-- What was sent and not received yet, the oldest first. -/
  queue : List α := []
  /-- Nothing more will be sent. -/
  closed : Bool := false
  /-- Nothing more will be received. -/
  abandoned : Bool := false
deriving DecidableEq, Repr

inductive Received (α : Type)
  | item (a : α)
  /-- Nothing, but something may come. -/
  | nothing
  /-- Nothing, and nothing will come. -/
  | endOfStream
deriving DecidableEq, Repr

namespace Pipe

variable {α : Type}

/-- Sends an item; gives none if the pipe is closed or nobody receives. -/
def send (p : Pipe α) (a : α) : Option (Pipe α) :=
  if p.closed || p.abandoned then none else some { p with queue := p.queue ++ [a] }

def receive (p : Pipe α) : Received α × Pipe α :=
  match p.queue with
  | a :: rest => (.item a, { p with queue := rest })
  | [] => (if p.closed then .endOfStream else .nothing, p)

def close (p : Pipe α) : Pipe α := { p with closed := true }

/-- Says that nothing more will be received; what was sent is lost. -/
def abandon (p : Pipe α) : Pipe α := { p with queue := [], abandoned := true }

theorem send_eq_some_iff {p p' : Pipe α} {a : α} :
    p.send a = some p' ↔
      p.closed = false ∧ p.abandoned = false ∧ p' = { p with queue := p.queue ++ [a] } := by
  cases hc : p.closed <;> cases ha : p.abandoned <;> simp [send, hc, ha, eq_comm]

theorem receive_of_queue {p : Pipe α} {a : α} {rest : List α} (h : p.queue = a :: rest) :
    p.receive = (.item a, { p with queue := rest }) := by simp [receive, h]

end Pipe

end ContractNode
