import ContractNode.Node.Service

/-!
# Dispatch

Every message, whether it arrived from the contract or was made by the node, is shown to the
lifecycle of its session. The messages that end a transaction pass a ready lifecycle by and go
straight to whoever waits for them.

* `Node.hooks` : what a session does at each place of its lifecycle;
* `Node.handle` : shows a message to the lifecycle;
* `Node.endSession` : ends a session, for whatever reason;
* `Node.receive?`, `Node.command?`, `Node.work?`, `Node.dial?` : one turn of the inbound loop, of the
  outbound loop, of a worker, and of a thread that a call runs on.
-/

namespace ContractNode

namespace Node

/-! ## The lifecycle -/

def submit (n : Node) (s : SessionId) (job : Job) : Except String Unit × Node :=
  match n.session? s with
  | none => (.error SessionError.sessionClosed.message, n)
  | some ses =>
    match ses.submit job with
    | .error e => (.error e.message, n)
    | .ok ses' => (.ok (), n.modify s fun _ => ses')

/-- What a session does at each place of its lifecycle. A call waits for another contract, so it
does not take up a worker but a thread of its own. -/
def hooks (s : SessionId) : Hooks Node Message where
  before
    | .registered => some fun _ m n =>
      match n.register s m with
      | (.error e, n') => (.error e.message, n')
      | (.ok (), n') => (.ok (), n')
    | _ => none
  enter
    | .established => some fun _ _ n => (.ok (), n.modify s Session.announce)
    | .ready => some fun _ m n => (.ok (), n.modify s (·.notify m))
    | .ended => some fun _ m n =>
      (.ok (), (n.modify s fun ses => (ses.notify m).notifyAll).deregister s)
    | .created => none
  after event :=
    match RequestKind.ofEvent? event with
    | none => none
    | some .invoke => some fun _ m n => (.ok (), n.modify s (·.dial m))
    | some kind => some fun _ m n => n.submit s ⟨kind, m⟩

/-- Whether a message passes the lifecycle by: it ends a transaction, and the session is ready. -/
def bypasses (phase : Phase) (kind : MessageKind) : Bool :=
  phase == .ready && (kind == .completed || kind == .error)

def setPhase (n : Node) (s : SessionId) (phase : Phase) : Node :=
  n.modify s fun ses => { ses with phase }

/-- Shows a message to the lifecycle of a session. One that raises no event, or an illegal one, is
dropped. -/
def handle (n : Node) (s : SessionId) (m : Message) : Node :=
  match n.session? s with
  | none => n
  | some ses =>
    if bypasses ses.phase m.kind then n.modify s (·.notify m)
    else
      match Event.ofKind? m.kind with
      | none => n
      | some event =>
        match (hooks s).raise event m ses.phase n with
        | (_, phase, n') => n'.setPhase s phase

/-- Ends a session: its lifecycle ends, which tells everybody who waits; its key is free again; its
loops and workers stop after what is queued for them; and nothing more is sent. -/
def endSession (n : Node) (s : SessionId) : Node :=
  match n.session? s with
  | none => n
  | some ses =>
    match (hooks s).terminate { kind := .error, payload := Session.farewell } ses.phase n with
    | (_, phase, n') => ((n'.setPhase s phase).deregister s).modify s Session.stop

/-! ## Turns -/

def stopInbound (n : Node) (s : SessionId) : Node :=
  (n.modify s fun ses => { ses with inbound := .stopped }).endSession s

/-- The outbound loop ends, and the session with it; what is queued for it is lost. -/
def stopOutbound (n : Node) (s : SessionId) : Node :=
  (n.endSession s).modify s fun ses => { ses with outbound := .stopped, commands := [] }

/-- A message has arrived. Those that keep the connection alive have done so. After a message that
finds the session ended, the loop ends. -/
def arrive (n : Node) (s : SessionId) (m : Message) : Node :=
  if m.kind = .keepalive then n
  else
    let n' := n.handle s m
    if (n'.session? s).any fun ses => ses.phase == .ended then n'.stopInbound s else n'

/-- One turn of the inbound loop, if it runs and there is anything to receive. -/
def receive? (n : Node) (s : SessionId) : Option Node :=
  match n.session? s with
  | none => none
  | some ses =>
    if ses.inbound = .running then
      match ses.link.inbox.receive with
      | (.nothing, _) => none
      | (.endOfStream, _) => some (n.stopInbound s)
      | (.item (.error _), inbox) =>
        some ((n.modify s (·.withInbox inbox)).stopInbound s)
      | (.item (.ok m), inbox) =>
        some ((n.modify s (·.withInbox inbox)).arrive s m)
    else none

/-- Sends a message that the outbound loop may not fail to send; gives `false` if it does. Only
`READY` goes out this way. -/
def sendNow (n : Node) (s : SessionId) (m : Message) : Bool × Node :=
  if m.kind = .ready then
    match n.send s m with
    | (.ok (), n') => (true, n')
    | (.error _, n') => (false, n')
  else (false, n)

theorem send_of_sendNow {n n' : Node} {s : SessionId} {m : Message}
    (h : n.sendNow s m = (true, n')) : n.send s m = (.ok (), n') := by
  rw [sendNow] at h
  split at h
  · split at h
    · rename_i sent
      cases h
      exact sent
    · cases h
  · cases h

/-- A message that could not be sent has changed nothing. -/
theorem eq_of_sendNow {n n' : Node} {s : SessionId} {m : Message}
    (h : n.sendNow s m = (false, n')) : n' = n := by
  rw [sendNow] at h
  split at h
  · split at h
    · cases h
    · rename_i failed
      cases h
      rw [send] at failed
      split at failed
      · cases failed
        rfl
      · split at failed
        · cases failed
          rfl
        · cases failed
  · cases h
    rfl

/-- A command is carried out: its message is shown to the lifecycle and, if asked to, forwarded.
Where that may not fail but does, the loop ends. -/
def carryOut (n : Node) (s : SessionId) (c : Command) : Node :=
  let n' := n.handle s c.message
  if c.forward then
    if c.sync then
      match n'.sendNow s c.message with
      | (true, n'') => n''
      | (false, n'') => n''.stopOutbound s
    else n'.modify s (·.sendAnyway c.message)
  else n'

/-- One turn of the outbound loop, if it runs and anything is queued. -/
def command? (n : Node) (s : SessionId) : Option Node :=
  match n.session? s with
  | none => none
  | some ses =>
    if ses.outbound = .running then
      match ses.commands with
      | [] => none
      | .shutdown :: rest =>
        some ((n.modify s fun ses => { ses with commands := rest }).stopOutbound s)
      | .next c :: rest => some ((n.modify s fun ses => { ses with commands := rest }).carryOut s c)
    else none

/-- One turn of a worker, if one is idle and anything is queued. -/
def work? (n : Node) (s : SessionId) : Option Node :=
  match n.session? s with
  | none => none
  | some ses =>
    match ses.pool.take with
    | none => none
    | some (.stop, pool) => some (n.modify s fun ses => { ses with pool })
    | some (.job job, pool) =>
      some <|
        match (n.modify s fun ses => { ses with pool }).serve s job with
        | (none, n') => n'.modify s fun ses => { ses with pool := ses.pool.finish job }
        | (some p, n') => n'.modify s fun ses => { ses with parked := ses.parked ++ [p] }

/-- A thread takes its call request up. -/
def dial (n : Node) (s : SessionId) (m : Message) : Node :=
  ((n.modify s (·.pickUp m)).serve s ⟨.invoke, m⟩).2

/-- One turn of a thread that a call is to run on, if there is any. -/
def dial? (n : Node) (s : SessionId) : Option Node :=
  match n.session? s with
  | none => none
  | some ses => ses.dials.head?.map (n.dial s)

/-- One read of a session goes on, if its key can be read again. -/
def resume? (n : Node) (s : SessionId) : Option Node :=
  match n.session? s with
  | none => none
  | some ses => (ses.parked.find? fun p => !n.gates.contains p.ref.key).map (n.resume s)

end Node

end ContractNode
