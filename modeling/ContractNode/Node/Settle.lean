import ContractNode.Node.Dispatch

/-!
# Coming to rest

Loops, workers, threads and waiting executions take turns until none of them can go on.

* `Node.turn?` : the next turn of a node, if there is one;
* `Node.AtRest` : nothing can go on;
* `Node.weight` : a bound on the turns that are left, since each turn takes away more than it adds;
* `Node.settle` : takes turns until the node is at rest.
-/

namespace ContractNode

/-- A bound on what a message can lead to once it is shown to a lifecycle. -/
def MessageKind.weight : MessageKind → Nat
  | .register | .registered => 2
  | .getState | .putState | .delState | .getStateByRange | .getQueryResult | .getHistoryForKey
  | .queryStateNext | .queryStateClose | .invokeContract => 8
  | _ => 1

theorem MessageKind.weight_pos (kind : MessageKind) : 0 < kind.weight := by cases kind <;> decide

/-- The weights of what stands in a list, taken together. -/
def total {α : Type} (w : α → Nat) : List α → Nat
  | [] => 0
  | a :: l => w a + total w l

@[simp] theorem total_nil {α : Type} (w : α → Nat) : total w [] = 0 := rfl

@[simp] theorem total_cons {α : Type} (w : α → Nat) (a : α) (l : List α) :
    total w (a :: l) = w a + total w l := rfl

@[simp] theorem total_append {α : Type} (w : α → Nat) (l l' : List α) :
    total w (l ++ l') = total w l + total w l' := by
  induction l with
  | nil => simp
  | cons a l ih =>
    simp only [List.cons_append, total_cons, ih]
    omega

@[simp] theorem total_replicate {α : Type} (w : α → Nat) (k : Nat) (a : α) :
    total w (List.replicate k a) = k * w a := by
  induction k with
  | zero => simp
  | succ k ih =>
    rw [List.replicate_succ, total_cons, ih, Nat.succ_mul]
    omega

namespace Session

def instructionWeight : Instruction → Nat
  | .next c => c.message.kind.weight
  | .shutdown => 1

def arrivalWeight : Except StreamError Message → Nat
  | .ok m => m.kind.weight + 1
  | .error _ => 1

def taskWeight : Task Job → Nat
  | .job _ => 7
  | .stop => 1

def loopWeight (s : Session) : Loop → Nat
  | .running => s.pool.size + 3
  | .idle | .stopped => 0

/-- A bound on the turns that a session has left. -/
def weight (s : Session) : Nat :=
  total instructionWeight s.commands + total arrivalWeight s.link.inbox.queue
    + total taskWeight s.pool.queue + 7 * s.dials.length + 2 * s.parked.length
    + s.loopWeight s.inbound + s.loopWeight s.outbound

end Session

namespace Node

/-- The next turn of a session. A thread of its own has to wait for nobody, and what is queued goes
before what has yet to be received. -/
def sessionTurn? (n : Node) (s : SessionId) : Option Node :=
  n.dial? s <|> n.command? s <|> n.work? s <|> n.resume? s <|> n.receive? s

/-- The next turn of a node: an execution returns, or a session takes a turn. -/
def turn? (n : Node) : Option Node :=
  n.calls.findSome? n.finish? <|> (List.range n.sessions.length).findSome? n.sessionTurn?

/-- Nothing can go on. -/
def AtRest (n : Node) : Prop := n.turn? = none

/-- A bound on the turns that are left. -/
def weight (n : Node) : Nat := total Session.weight n.sessions + 2 * n.calls.length

def turns : Nat → Node → Node
  | 0, n => n
  | k + 1, n =>
    match n.turn? with
    | none => n
    | some n' => turns k n'

def settle (n : Node) : Node := turns n.weight n

end Node

end ContractNode
