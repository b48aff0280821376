import ContractNode.Node.Execution

/-!
# Serving requests

A request claims the marker of its transaction, reads its payload, looks up the context, and is
carried out. While the marker is held, other requests of the transaction get no answer at all.

* `Outcome` : a request is answered, or waits;
* `Node.perform` : carries a request out in a context;
* `Node.serve` : a request from claiming the marker to answering, if it does not wait;
* `Node.resume` : a read whose key can be read again.
-/

namespace ContractNode

/-- What carrying a request out comes to. -/
inductive Outcome
  | answered (result : Except SessionError Bytes)
  /-- It waits for a key. -/
  | parked (p : ParkedRead)
  /-- It waits for a called contract. -/
  | calling

namespace Node

/-! ## Keys -/

/-- What an action is called, depending on whether it is about a collection. -/
def action (collection : Option String) (forState forCollection : String) : String :=
  if collection.isNone then forState else forCollection

/-- Reads a key. A key without a value reads as the empty one. -/
def read (n : Node) (sim : Simulator) (space : String) (r : KeyRef) : Except SessionError Bytes :=
  match n.drill.guard (action r.collection "get_state" "get_private_data") r.key
    (n.ledger.get sim space r.collection r.key) with
  | .error e => .error (.ledger e)
  | .ok v => .ok (v.getD [])

/-- Keeps a changed ledger, if there is one. -/
def commit (n : Node) (r : Except LedgerError Ledger) : Outcome × Node :=
  match r with
  | .error e => (.answered (.error (.ledger e)), n)
  | .ok ledger => (.answered (.ok []), { n with ledger })

def write (n : Node) (sim : Simulator) (space : String) (w : KeyWrite) : Outcome × Node :=
  n.commit (n.drill.guard (action w.collection "set_state" "set_private_data") w.key
    (n.ledger.set sim space w.collection w.key w.value))

def delete (n : Node) (sim : Simulator) (space : String) (r : KeyRef) : Outcome × Node :=
  n.commit (n.drill.guard (action r.collection "delete_state" "delete_private_data") r.key
    (n.ledger.delete sim space r.collection r.key))

/-! ## Cursors -/

/-- What a cursor operation comes to: the bytes of a page, or a failure. -/
def paged (r : Except CursorError Page) : Outcome :=
  .answered <|
    match r with
    | .error e => .error (.cursor e)
    | .ok page => .ok (Page.codec.encode page)

def modifyCursors (n : Node) (s : SessionId) (c : Nat) (t : CursorTable Scan) : Node :=
  n.modifyContext s c fun ctx => { ctx with cursors := t }

/-- Opens a cursor in a context, and gives its first page. -/
def openCursor (n : Node) (s : SessionId) (c : Nat) (max : Nat) (ctx : Context)
    (r : Except LedgerError Scan) : Outcome × Node :=
  match r with
  | .error e => (.answered (.error (.ledger e)), n)
  | .ok scan =>
    match ctx.cursors.openCursor max (cursorId n.cursorCount) scan with
    | (page, t) => (paged page, { n.modifyCursors s c t with cursorCount := n.cursorCount + 1 })

def scanRange (n : Node) (sim : Simulator) (space : String) (r : KeyRange) :
    Except LedgerError Scan :=
  n.drill.cursor (action r.collection "range" "private range") r.first fun first =>
    n.ledger.range sim space r.collection first r.last

def scanQuery (n : Node) (sim : Simulator) (space : String) (q : KeyQuery) :
    Except LedgerError Scan :=
  n.drill.cursor (action q.collection "query" "private query") q.query fun query =>
    n.ledger.query sim space q.collection query

def scanHistory (n : Node) (h : Historian) (space : String) (r : KeyHistory) :
    Except LedgerError Scan :=
  (n.drill.guard "history" r.key (n.ledger.history h space r.key)).map Scan.ofResults

/-! ## Calls -/

/-- The rights that a called contract has: those of the caller on the caller's channel, and those
that the node gives on any other one. -/
def callRights (n : Node) (ctx : Context) (target : ContractInstance) :
    Except SessionError (Simulator × Option Historian) :=
  if target.channel = ctx.channel then
    match ctx.simulator with
    | none => .error (.missingSimulator ctx.channel ctx.tx)
    | some sim => .ok (sim, ctx.historian)
  else
    match n.ledger.simulator target.channel ctx.tx with
    | .error _ => .error (.ledgerNotFound target.channel)
    | .ok sim => .ok (sim, n.historian? target.channel)

/-- Runs a call on the session that serves its target. Contracts of the node itself need no
launch, which is to find out that there is such a session. -/
def callSession (n : Node) (i : Invocation) (origin : Origin) : Outcome × Node :=
  let launched :=
    if n.directory.system.contains i.target.name then .ok ()
    else (n.directory.resolve i.target).map fun _ => ()
  match launched with
  | .error e => (.answered (.error (.launch e)), n)
  | .ok () =>
    match n.directory.resolve i.target with
    | .error e => (.answered (.error (.launch e)), n)
    | .ok s =>
      match n.beginCall s i origin with
      | (.error e, n') => (.answered (.error (.launch (.executionFailed e.message))), n')
      | (.ok (), n') => (.calling, n')

def callEcho (e : Echo) (i : Invocation) : Except SessionError Bytes :=
  let launched := if e.system.contains i.target.name then .ok () else e.launch i
  match launched with
  | .error err => .error (.launch err)
  | .ok () =>
    match e.execute i with
    | .error err => .error (.launch err)
    | .ok m => .ok (Message.codec.encode m)

def invocation (ctx : Context) (spec : CallSpec) (rights : Simulator × Option Historian) :
    Invocation :=
  let target := spec.target ctx.channel
  { target
    spec := spec.named target.name
    message :=
      { kind := .transaction, channel := target.channel, tx := ctx.tx
        payload := CallInput.codec.encode spec.input }
    simulator := rights.1
    historian := rights.2
    signedProposal := ctx.signedProposal
    proposal := ctx.proposal }

/-- Carries a call out: it has to be allowed, then the called contract gets its rights on the
ledger, and then it runs. -/
def invoke (n : Node) (s : SessionId) (ses : Session) (c : Nat) (ctx : Context) (m : Message)
    (spec : CallSpec) : Outcome × Node :=
  let target := spec.target ctx.channel
  match ses.access.check ctx.signedProposal ctx.proposal target with
  | .error e => (.answered (.error (.access e)), n)
  | .ok () =>
    match n.callRights ctx target with
    | .error e => (.answered (.error e), n)
    | .ok rights =>
      let i := invocation ctx spec rights
      match ses.launcher with
      | .echo e => (.answered (callEcho e i), n)
      | .directory => n.callSession i (.request s c m)

/-! ## Requests -/

def rightOf (ctx : Context) : Except SessionError Simulator :=
  match ctx.simulator with
  | none => .error (.missingSimulator ctx.channel ctx.tx)
  | some sim => .ok sim

/-- What is done with the right of a context to read and write its channel, in the namespace of
the session's contract. -/
def withRight (n : Node) (ses : Session) (ctx : Context)
    (f : Simulator → String → Outcome × Node) : Outcome × Node :=
  match rightOf ctx with
  | .error e => (.answered (.error e), n)
  | .ok sim =>
    match ses.space with
    | .error e => (.answered (.error e), n)
    | .ok space => f sim space

/-- What is done with the right of a context to read the history on its channel. -/
def withHistory (n : Node) (ses : Session) (ctx : Context)
    (f : Historian → String → Outcome × Node) : Outcome × Node :=
  match ctx.historian with
  | none => (.answered (.error (.missingHistorian ctx.channel ctx.tx)), n)
  | some h =>
    match ses.space with
    | .error e => (.answered (.error e), n)
    | .ok space => f h space

/-- Whether a read of a key has to wait for now. One that fails in any case does not. -/
def holds (n : Node) (key : String) : Bool := n.gates.contains key && !n.drill.fails key

def perform (n : Node) (s : SessionId) (ses : Session) (c : Nat) (ctx : Context) (job : Job) :
    Request → Outcome × Node
  | .get r => n.withRight ses ctx fun sim space =>
    if n.holds r.key then (.parked ⟨job, c, sim, space, r⟩, n)
    else (.answered (n.read sim space r), n)
  | .put w => n.withRight ses ctx fun sim space => n.write sim space w
  | .delete r => n.withRight ses ctx fun sim space => n.delete sim space r
  | .range r => n.withRight ses ctx fun sim space =>
    n.openCursor s c ses.config.maxBatch ctx (n.scanRange sim space r)
  | .query q => n.withRight ses ctx fun sim space =>
    n.openCursor s c ses.config.maxBatch ctx (n.scanQuery sim space q)
  | .history r => n.withHistory ses ctx fun h space =>
    n.openCursor s c ses.config.maxBatch ctx (n.scanHistory h space r)
  | .next r =>
    match ctx.cursors.advance ses.config.maxBatch r.id with
    | (page, t) => (paged page, n.modifyCursors s c t)
  | .close r => (paged (.ok { id := r.id }), n.modifyCursors s c (ctx.cursors.close r.id))
  | .invoke spec => n.invoke s ses c ctx job.message spec

/-- Reads a request and carries it out in the context of its transaction. -/
def attempt (n : Node) (s : SessionId) (ses : Session) (job : Job) : Outcome × Node :=
  match Request.decode job.kind job.message.payload with
  | .error e => (.answered (.error (.codec e)), n)
  | .ok request =>
    match ses.transactions.find? job.message.channel job.message.tx with
    | none => (.answered (.error (.missingContext job.message.channel job.message.tx)), n)
    | some c =>
      match ses.transactions.context? c with
      | none => (.answered (.error (.missingContext job.message.channel job.message.tx)), n)
      | some ctx => n.perform s ses c ctx job request

/-- Serves a request, unless its transaction has another one under way. Gives the read that waits
for a key, if it comes to that. `Hand` has the statements of this one at a time. -/
def serve (n : Node) (s : SessionId) (job : Job) : Option ParkedRead × Node :=
  match n.session? s with
  | none => (none, n)
  | some ses =>
    match ses.transactions.mark job.message.channel job.message.tx with
    | (false, _) => (none, n)
    | (true, transactions) =>
      let ses' := { ses with transactions }
      match (n.modify s fun _ => ses').attempt s ses' job with
      | (.answered result, n') => (none, n'.answer s job result)
      | (.parked p, n') => (some p, n')
      | (.calling, n') => (none, n')

/-- A read goes on, and its worker is free again. -/
def resume (n : Node) (s : SessionId) (p : ParkedRead) : Node :=
  let n' := n.modify s fun ses =>
    { ses with parked := ses.parked.erase p, pool := ses.pool.finish p.job }
  n'.answer s p.job (n.read p.simulator p.space p.ref)

end Node

end ContractNode
