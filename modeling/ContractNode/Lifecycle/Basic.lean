import ContractNode.Message.Basic

/-!
# The lifecycle of a session

A session moves through `created`, `established` and `ready` to its `ended` phase, in that order.

* `Phase`, `Phase.name` : where a session is in its life;
* `Event`, `Event.ofKind?` : what a message asks of the lifecycle, if anything;
* `Phase.next?` : the phase that an event leads to, where it is legal.
-/

namespace ContractNode

inductive Phase
  | created
  | established
  | ready
  | ended
deriving DecidableEq, Repr

namespace Phase

/-- Every phase, in the order in which a session goes through them. -/
def all : List Phase := [.created, .established, .ready, .ended]

def name : Phase → String
  | .created => "created"
  | .established => "established"
  | .ready => "ready"
  | .ended => "end"

def ofName? (s : String) : Option Phase := all.find? fun p => p.name == s

def rank : Phase → Nat
  | .created => 0
  | .established => 1
  | .ready => 2
  | .ended => 3

end Phase

/-- What a message asks of the lifecycle. -/
inductive Event
  | registered
  | ready
  | putState
  | delState
  | invoke
  | completed
  | getState
  | getStateByRange
  | getQueryResult
  | getHistoryForKey
  | queryStateNext
  | queryStateClose
  | error
  | response
  | init
  | transaction
deriving DecidableEq, Repr

namespace Event

def all : List Event :=
  [.registered, .ready, .putState, .delState, .invoke, .completed, .getState, .getStateByRange,
    .getQueryResult, .getHistoryForKey, .queryStateNext, .queryStateClose, .error, .response,
    .init, .transaction]

/-- The name of an event: that of the message that raises it. -/
def name : Event → String
  | .registered => MessageKind.registered.name
  | .ready => MessageKind.ready.name
  | .putState => MessageKind.putState.name
  | .delState => MessageKind.delState.name
  | .invoke => MessageKind.invokeContract.name
  | .completed => MessageKind.completed.name
  | .getState => MessageKind.getState.name
  | .getStateByRange => MessageKind.getStateByRange.name
  | .getQueryResult => MessageKind.getQueryResult.name
  | .getHistoryForKey => MessageKind.getHistoryForKey.name
  | .queryStateNext => MessageKind.queryStateNext.name
  | .queryStateClose => MessageKind.queryStateClose.name
  | .error => MessageKind.error.name
  | .response => MessageKind.response.name
  | .init => MessageKind.init.name
  | .transaction => MessageKind.transaction.name

def ofName? (s : String) : Option Event := all.find? fun e => e.name == s

/-- The event that a message of a kind raises. A contract announces itself with `REGISTER`, and
both that and the reply to it raise `registered`. -/
def ofKind? : MessageKind → Option Event
  | .register | .registered => some .registered
  | .ready => some .ready
  | .putState => some .putState
  | .delState => some .delState
  | .invokeContract => some .invoke
  | .completed => some .completed
  | .getState => some .getState
  | .getStateByRange => some .getStateByRange
  | .getQueryResult => some .getQueryResult
  | .getHistoryForKey => some .getHistoryForKey
  | .queryStateNext => some .queryStateNext
  | .queryStateClose => some .queryStateClose
  | .error => some .error
  | .response => some .response
  | .init => some .init
  | .transaction => some .transaction
  | .undefined | .keepalive => none

end Event

/-- The phase that an event leads to, or none where it is illegal. A ready session takes
everything but another handshake, and stays ready. -/
def Phase.next? : Phase → Event → Option Phase
  | .created, .registered => some .established
  | .established, .ready => some .ready
  | .ready, .registered => none
  | .ready, .ready => none
  | .ready, _ => some .ready
  | _, _ => none

/-- A lifecycle never goes back. -/
theorem Phase.rank_le_of_next? {p q : Phase} {e : Event} (h : p.next? e = some q) :
    p.rank ≤ q.rank := by
  cases p <;> cases e <;> simp [Phase.next?] at h <;> subst h <;> decide

/-- Only the registration leads to `established`. -/
theorem Phase.eq_registered_of_next? {p : Phase} {e : Event} (h : p.next? e = some .established) :
    e = .registered := by
  cases p <;> cases e <;> simp [Phase.next?] at h ⊢

end ContractNode
