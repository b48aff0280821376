import ContractNode.Contract.Call
import ContractNode.Lifecycle.Basic
import ContractNode.Request.Payload

/-!
# Ledger requests

* `RequestKind` : what a contract may ask for while it runs a transaction;
* `Request`, `Request.decode` : what it asks for, read from the payload of its message;
* `RequestKind.route` : how the answer travels.
-/

namespace ContractNode

/-- What a contract may ask for while it runs a transaction. -/
inductive RequestKind
  | get
  | put
  | delete
  | range
  | query
  | history
  | next
  | close
  | invoke
deriving DecidableEq, Repr

/-- How the answer to a request travels. -/
inductive Route
  /-- Straight to the contract. -/
  | direct
  /-- Through the outbound queue, so that the lifecycle sees it first. -/
  | outbound
deriving DecidableEq, Repr

namespace RequestKind

def ofEvent? : Event → Option RequestKind
  | .getState => some .get
  | .putState => some .put
  | .delState => some .delete
  | .getStateByRange => some .range
  | .getQueryResult => some .query
  | .getHistoryForKey => some .history
  | .queryStateNext => some .next
  | .queryStateClose => some .close
  | .invoke => some .invoke
  | .registered | .ready | .completed | .error | .response | .init | .transaction => none

/-- How the answer to a request travels: what changes something goes through the outbound queue. -/
def route : RequestKind → Route
  | .put | .delete | .invoke => .outbound
  | .get | .range | .query | .history | .next | .close => .direct

end RequestKind

/-- What a contract asks for. -/
inductive Request
  | get (r : KeyRef)
  | put (r : KeyWrite)
  | delete (r : KeyRef)
  | range (r : KeyRange)
  | query (r : KeyQuery)
  | history (r : KeyHistory)
  | next (r : CursorRef)
  | close (r : CursorRef)
  | invoke (c : CallSpec)
deriving DecidableEq, Repr

/-- Reads a request of a kind from the payload of its message. -/
def Request.decode (kind : RequestKind) (payload : Bytes) : Except CodecError Request :=
  match kind with
  | .get => (KeyRef.getCodec.decode payload).map .get
  | .put => (KeyWrite.codec.decode payload).map .put
  | .delete => (KeyRef.deleteCodec.decode payload).map .delete
  | .range => (KeyRange.codec.decode payload).map .range
  | .query => (KeyQuery.codec.decode payload).map .query
  | .history => (KeyHistory.codec.decode payload).map .history
  | .next => (CursorRef.nextCodec.decode payload).map .next
  | .close => (CursorRef.closeCodec.decode payload).map .close
  | .invoke => (CallSpec.codec.decode payload).map .invoke

end ContractNode
