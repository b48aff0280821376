import ContractNode.Message.Basic
import ContractNode.Stream.Pipe

/-!
# Message streams

* `StreamError` : why a message was not sent or received, and its wording;
* `End` : the two ends of a stream;
* `StreamPair` : a stream inside the process, which carries messages in their encoded form;
* `StreamPair.send`, `StreamPair.receive`, `StreamPair.poll`, `StreamPair.close`,
  `StreamPair.drop`.
-/

namespace ContractNode

inductive StreamError
  /-- What arrived is no message. -/
  | codec (e : CodecError)
  /-- The other end is gone. -/
  | disconnected
  /-- The connection below failed. -/
  | connection (detail : String)
deriving DecidableEq, Repr

namespace StreamError

def message : StreamError → String
  | .codec e => "unable to decode message: " ++ e.message
  | .disconnected => "stream disconnected"
  | .connection detail => "connection error: " ++ detail

def causes : StreamError → List String
  | .codec e => [e.message]
  | .disconnected | .connection _ => []

end StreamError

inductive End
  | node
  | contract
deriving DecidableEq, Repr

def End.other : End → End
  | .node => .contract
  | .contract => .node

/-- A stream inside the process: a pipe from each end to the other, which carries encoded
messages. -/
structure StreamPair where
  fromNode : Pipe Bytes := {}
  fromContract : Pipe Bytes := {}
deriving DecidableEq, Repr

namespace StreamPair

def outgoing (s : StreamPair) : End → Pipe Bytes
  | .node => s.fromNode
  | .contract => s.fromContract

def setOutgoing (s : StreamPair) (e : End) (p : Pipe Bytes) : StreamPair :=
  match e with
  | .node => { s with fromNode := p }
  | .contract => { s with fromContract := p }

def incoming (s : StreamPair) (e : End) : Pipe Bytes := s.outgoing e.other

def setIncoming (s : StreamPair) (e : End) (p : Pipe Bytes) : StreamPair := s.setOutgoing e.other p

def send (s : StreamPair) (e : End) (m : Message) : Except StreamError StreamPair :=
  match (s.outgoing e).send (Message.codec.encode m) with
  | none => .error .disconnected
  | some p => .ok (s.setOutgoing e p)

/-- Receives a message at an end, if there is anything to receive. -/
def receive (s : StreamPair) (e : End) : Except StreamError (Received Message) × StreamPair :=
  match (s.incoming e).receive with
  | (.nothing, _) => (.ok .nothing, s)
  | (.endOfStream, _) => (.ok .endOfStream, s)
  | (.item bs, p) =>
    match Message.codec.decode bs with
    | .error err => (.error (.codec err), s.setIncoming e p)
    | .ok m => (.ok (.item m), s.setIncoming e p)

/-- Receives a message at an end without waiting; that the stream is over is a failure here. -/
def poll (s : StreamPair) (e : End) : Except StreamError (Option Message) × StreamPair :=
  match s.receive e with
  | (.error err, s') => (.error err, s')
  | (.ok (.item m), s') => (.ok (some m), s')
  | (.ok .nothing, s') => (.ok none, s')
  | (.ok .endOfStream, s') => (.error .disconnected, s')

def close (s : StreamPair) (e : End) : StreamPair := s.setOutgoing e (s.outgoing e).close

/-- Gives an end up, for sending and for receiving. -/
def drop (s : StreamPair) (e : End) : StreamPair :=
  let s' := s.close e
  s'.setIncoming e (s'.incoming e).abandon

def isDropped (s : StreamPair) (e : End) : Bool := (s.incoming e).abandoned

end StreamPair

end ContractNode
