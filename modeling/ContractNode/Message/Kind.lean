/-!
# Kinds of messages

* `MessageKind` : what a message between node and contract is about;
* `MessageKind.name`, `MessageKind.ofName?` : its name;
* `MessageKind.code`, `MessageKind.ofCode?` : its number on the wire.
-/

namespace ContractNode

/-- What a message between node and contract is about. -/
inductive MessageKind
  | undefined
  | register
  | registered
  | init
  | ready
  | transaction
  | completed
  | error
  | getState
  | putState
  | delState
  | invokeContract
  | response
  | getStateByRange
  | getQueryResult
  | queryStateNext
  | queryStateClose
  | keepalive
  | getHistoryForKey
deriving DecidableEq, Repr

namespace MessageKind

/-- Every kind, in ascending order of the codes. -/
def all : List MessageKind :=
  [.undefined, .register, .registered, .init, .ready, .transaction, .completed, .error, .getState,
    .putState, .delState, .invokeContract, .response, .getStateByRange, .getQueryResult,
    .queryStateNext, .queryStateClose, .keepalive, .getHistoryForKey]

def name : MessageKind → String
  | .undefined => "UNDEFINED"
  | .register => "REGISTER"
  | .registered => "REGISTERED"
  | .init => "INIT"
  | .ready => "READY"
  | .transaction => "TRANSACTION"
  | .completed => "COMPLETED"
  | .error => "ERROR"
  | .getState => "GET_STATE"
  | .putState => "PUT_STATE"
  | .delState => "DEL_STATE"
  | .invokeContract => "INVOKE_CONTRACT"
  | .response => "RESPONSE"
  | .getStateByRange => "GET_STATE_BY_RANGE"
  | .getQueryResult => "GET_QUERY_RESULT"
  | .queryStateNext => "QUERY_STATE_NEXT"
  | .queryStateClose => "QUERY_STATE_CLOSE"
  | .keepalive => "KEEPALIVE"
  | .getHistoryForKey => "GET_HISTORY_FOR_KEY"

def ofName? (s : String) : Option MessageKind := all.find? fun k => k.name == s

/-- The number of a kind on the wire. Number 12 is not in use. -/
def code : MessageKind → Nat
  | .undefined => 0
  | .register => 1
  | .registered => 2
  | .init => 3
  | .ready => 4
  | .transaction => 5
  | .completed => 6
  | .error => 7
  | .getState => 8
  | .putState => 9
  | .delState => 10
  | .invokeContract => 11
  | .response => 13
  | .getStateByRange => 14
  | .getQueryResult => 15
  | .queryStateNext => 16
  | .queryStateClose => 17
  | .keepalive => 18
  | .getHistoryForKey => 19

def ofCode? (n : Nat) : Option MessageKind := all.find? fun k => k.code == n

@[simp] theorem ofCode?_code (k : MessageKind) : ofCode? k.code = some k := by cases k <;> rfl

end MessageKind

end ContractNode
