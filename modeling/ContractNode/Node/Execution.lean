import ContractNode.Node.Basic

/-!
# Executions

An execution registers a context for its transaction, has a message forwarded to the contract, and
waits for the message that ends the transaction.

* `attachProposal` : the signed proposal goes with the message where there is a proposal;
* `Node.begin` : an execution begins;
* `Node.execute`, `Node.run` : an execution for a caller from outside, on a channel of the node or
  with given rights;
* `Node.ready` : the handshake of a transaction, which ends like an execution but is waited for by
  the caller;
* `Node.finish`, `Node.expire` : an execution ends, with its message or because of the time.
-/

namespace ContractNode

/-- The message of a draft, with the signed proposal if there is a proposal. There is no proposal
without a signed one. -/
def attachProposal (d : MessageDraft) (signedProposal : Option SignedProposal)
    (proposal : Option Proposal) : Except SessionError Message :=
  match proposal, signedProposal with
  | some _, none => .error .missingSignedProposal
  | some _, some sp => { d with proposal := some sp }.build.mapError .draft
  | none, _ => d.build.mapError .draft

theorem kind_of_attachProposal {d : MessageDraft} {m : Message}
    {signedProposal : Option SignedProposal} {proposal : Option Proposal}
    (h : attachProposal d signedProposal proposal = .ok m) : d.kind = some m.kind := by
  have built {d' : MessageDraft} (h : d'.build.mapError SessionError.draft = .ok m) :
      d'.kind = some m.kind := by
    cases made : d'.build with
    | error e => rw [made] at h; cases h
    | ok m' => rw [made] at h; cases h; exact MessageDraft.kind_of_build made
  cases proposal with
  | none => exact built h
  | some p =>
    cases signedProposal with
    | none => cases h
    | some sp => exact (built h :)

namespace Node

/-! ## Beginning -/

/-- The context of a transaction with the rights that the node gives on its channel. -/
def newContext (n : Node) (channel tx : String) (signedProposal : Option SignedProposal)
    (proposal : Option Proposal) : Context :=
  { Context.onLedger n.ledger channel tx signedProposal proposal with
    historian := n.historian? channel }

/-- Registers a context and hands the receiving end of its slot out; gives its number. -/
def enroll (n : Node) (s : SessionId) (c : Context) (tx : String) :
    Except SessionError Nat × Node :=
  match n.session? s with
  | none => (.error .sessionClosed, n)
  | some ses =>
    match ses.transactions.create c with
    | none => (.error (.duplicateTransaction tx), n)
    | some (no, t) =>
      (.ok no, n.modify s fun ses =>
        { ses with transactions := t.modify no fun c => { c with slot := c.slot.take.2 } })

/-- Takes the context of a transaction out of the index of a session. -/
def deleteContext (n : Node) (s : SessionId) (channel tx : String) : Node :=
  n.modify s fun ses => { ses with transactions := ses.transactions.delete channel tx }

/-- Queues a command on a session; gives `false` if its outbound loop has stopped. -/
def enqueue (n : Node) (s : SessionId) (c : Command) : Bool × Node :=
  match n.session? s with
  | none => (false, n)
  | some ses => ((ses.enqueue c).1, n.modify s fun ses => (ses.enqueue c).2)

/-- An execution gives up its context. -/
def discard (n : Node) (s : SessionId) (no : Nat) (c : Context) : Node :=
  (n.modifyContext s no fun c => { c.closeCursors with slot := c.slot.drop }).deleteContext s
    c.channel c.tx

/-- An execution begins: its context is registered, its message is queued to be forwarded, and it
waits. -/
def begin (n : Node) (s : SessionId) (c : Context) (m : Message) (origin : Origin) :
    Except SessionError Unit × Node :=
  match n.enroll s c m.tx with
  | (.error e, n') => (.error e, n')
  | (.ok no, n') =>
    match n'.enqueue s { message := m, forward := true } with
    | (false, n'') => (.error .sessionClosed, n''.discard s no c)
    | (true, n'') =>
      (.ok (), { n'' with calls := n''.calls ++ [⟨s, no, origin, n.deadline? s⟩] })

/-- An execution on a session for a caller from outside. The message goes to the given channel. -/
def execute (n : Node) (s : SessionId) (label channel : String) (m : Message)
    (signedProposal : Option SignedProposal) (proposal : Option Proposal) : Node :=
  let started : Except SessionError Unit × Node :=
    match attachProposal { MessageDraft.ofMessage m with channel := some channel } signedProposal
      proposal with
    | .error e => (.error e, n)
    | .ok m' =>
      n.begin s (n.newContext channel m'.tx signedProposal proposal) m' (.caller label)
  match started with
  | (.ok (), n') => n'
  | (.error e, n') => { n' with results := n'.results ++ [(label, .error e)] }

/-- The message and the context of a call, for the session that is to run it. -/
def called (i : Invocation) : Except SessionError (Message × Context) :=
  match attachProposal (MessageDraft.ofMessage i.message) i.signedProposal i.proposal with
  | .error e => .error e
  | .ok m => .ok (m, {
      channel := m.channel
      tx := m.tx
      simulator := some i.simulator
      historian := i.historian
      signedProposal := i.signedProposal
      proposal := i.proposal })

theorem kind_of_called {i : Invocation} {m : Message} {c : Context} (h : called i = .ok (m, c)) :
    m.kind = i.message.kind := by
  rw [called] at h
  split at h
  · cases h
  · rename_i attached
    cases h
    exact (Option.some.inj (kind_of_attachProposal attached)).symm

def beginCall (n : Node) (s : SessionId) (i : Invocation) (origin : Origin) :
    Except SessionError Unit × Node :=
  match called i with
  | .error e => (.error e, n)
  | .ok (m, c) => n.begin s c m origin

/-- A call is run on a session for a caller from outside. -/
def run (n : Node) (s : SessionId) (label : String) (i : Invocation) : Node :=
  match n.beginCall s i (.caller label) with
  | (.ok (), n') => n'
  | (.error e, n') => { n' with results := n'.results ++ [(label, .error e)] }

/-- The handshake of a transaction: its context is registered, and `READY` is queued to be
forwarded at once. Gives the number of the context, in whose slot the end of the handshake will
show; it is for the caller to delete the context in the end. -/
def ready (n : Node) (s : SessionId) (channel tx : String)
    (signedProposal : Option SignedProposal) (proposal : Option Proposal) :
    Except SessionError Nat × Node :=
  match attachProposal { kind := some .ready, channel := some channel, tx := some tx }
    signedProposal proposal with
  | .error e => (.error e, n)
  | .ok m =>
    match n.enroll s (n.newContext channel tx signedProposal proposal) tx with
    | (.error e, n') => (.error e, n')
    | (.ok no, n') =>
      match n'.enqueue s { message := m, forward := true, sync := true } with
      | (false, n'') => (.error .sessionClosed, n''.deleteContext s channel tx)
      | (true, n'') => (.ok no, n'')

/-! ## Ending -/

/-- The result of an execution reaches whoever waits for it. -/
def deliver (n : Node) (origin : Origin) (result : Except SessionError Message) : Node :=
  match origin with
  | .caller label => { n with results := n.results ++ [(label, result)] }
  | .request s _ m =>
    n.answer s ⟨.invoke, m⟩ <|
      match result with
      | .ok answer => .ok (Message.codec.encode answer)
      | .error e => .error (.launch (.executionFailed e.message))

def forget (n : Node) (call : Call) : Node :=
  { n with calls := n.calls.filter fun c => c.session != call.session || c.context != call.context }

/-- An execution that has its message gives up its context, and no longer waits. -/
def retire (n : Node) (call : Call) (c : Context) : Node :=
  let n' := n.modifyContext call.session call.context fun c => { c with slot := c.slot.drop }
  (n'.deleteContext call.session c.channel c.tx).forget call

/-- Ends an execution if the slot of its context holds a message, which is the result. -/
def finish? (n : Node) (call : Call) : Option Node :=
  match n.context? call.session call.context with
  | none => none
  | some c =>
    match c.slot.message with
    | none => none
    | some m => some ((n.retire call c).deliver call.origin (.ok m))

/-- Ends an execution because its contract did not answer in time. `Hand` has the statements of this
one at a time. -/
def expire (n : Node) (call : Call) : Node :=
  match n.context? call.session call.context with
  | none => n.forget call
  | some c =>
    ((n.discard call.session call.context c).forget call).deliver call.origin
      (.error (.timeout c.tx))

end Node

end ContractNode
