import ContractNode.Proofs.Moves

/-!
# Who writes the ledger

Sessions share the ledger of their node. Whatever order things happen in, it is written by nothing
but requests to write, which a contract makes while its session is ready, and each of them makes the
one change that it names.

* `Node.LedgerMove` : what a move may do to the ledger;
* `Node.WriteTurn` : what the turn of a worker comes to that serves a request to write;
* `ledgerMove_of_moves` : every move of every run is of that kind.
-/

namespace ContractNode

/-- A message that a lifecycle takes for a request to write asks to set or to delete. -/
theorem RequestKind.kind_of_writes {kind : MessageKind} {r : RequestKind}
    (asked : (Event.ofKind? kind).bind RequestKind.ofEvent? = some r) (writes : r.writes = true) :
    kind = .putState ∧ r = .put ∨ kind = .delState ∧ r = .delete := by
  cases kind with
  | putState =>
    cases asked
    exact .inl ⟨rfl, rfl⟩
  | delState =>
    cases asked
    exact .inr ⟨rfl, rfl⟩
  | getState | getStateByRange | getQueryResult | getHistoryForKey | queryStateNext
  | queryStateClose | invokeContract =>
    cases asked
    cases writes
  | _ => cases asked

namespace Node

variable {P : Act → Prop}

theorem Stores.writes {n : Node} {ses : Session} {job : Job} {ctx : Context} {sim : Simulator}
    {space : String} {w : Write} {l : Ledger} (h : n.Stores ses job ctx sim space w l) :
    job.kind.writes = true := by
  obtain ⟨r, read, write⟩ := h.read
  rw [← Request.kind_of_decode read, r.writes_kind, write]
  rfl

/-- What a move may do to the ledger, after the moves that led from a first node here. -/
inductive LedgerMove (P : Act → Prop) (n₀ n n' : Node) : Prop
  | kept (same : n'.ledger = n.ledger)
  /-- The ledger is supplied from outside of any session. -/
  | supplied {a : Act} (given : P a) (supply : a.isSupply = true) (done : n' = n.act a)
  /-- A worker serves a request that its session took while it was ready. It makes one change, in
  the context of its transaction and in the namespace of its contract. -/
  | stored {s : SessionId} {ses : Session} {job : Job} {pool : WorkerPool Job} {ctx : Context}
      {sim : Simulator} {space : String} {w : Write} {l : Ledger}
      (found : n.session? s = some ses) (taken : ses.pool.take = some (.job job, pool))
      (kind : job.message.kind = .putState ∧ job.kind = .put ∨
        job.message.kind = .delState ∧ job.kind = .delete)
      (asked : Asked P s job n₀ n) (stores : n.Stores ses job ctx sim space w l)
      (changed : n.ledger.Changed l sim space w)
      (bound : (∀ a, P a → a.isBound = true) → sim = ⟨ctx.channel, ctx.tx⟩)
      (done : n' = n.storedNode s job pool l)

/-- What the turn of a worker comes to that serves a request to write: one that is dropped, or is
answered with an error, leaves the ledger as it is. -/
inductive WriteTurn (n n' : Node) (s : SessionId) (ses : Session) (job : Job)
    (pool : WorkerPool Job) : Prop
  | dropped (held : job.message.key ∈ ses.transactions.markers) (done : n' = n.worked s job pool id)
      (same : n'.ledger = n.ledger)
  | refused (e : SessionError)
      (done : n' = n.worked s job pool (·.reply job.kind (reply job.message (.error e))))
      (same : n'.ledger = n.ledger)
  | stored {ctx : Context} {sim : Simulator} {space : String} {w : Write} {l : Ledger}
      (stores : n.Stores ses job ctx sim space w l) (changed : n.ledger.Changed l sim space w)
      (done : n' = n.storedNode s job pool l)

theorem writeTurn_work? {n n' : Node} {s : SessionId} {ses : Session} {job : Job}
    {pool : WorkerPool Job} (found : n.session? s = some ses)
    (taken : ses.pool.take = some (.job job, pool)) (writes : job.kind.writes = true)
    (took : n.work? s = some n') : WriteTurn n n' s ses job pool := by
  have found' := session?_modify (f := fun ses => { ses with pool }) found
  have served := writeServed_serve found' writes
  simp only [work?, found, taken] at took
  generalize (n.modify s fun ses => { ses with pool }).serve s job = r at served took
  cases served with
  | dropped held =>
    refine .dropped held ?_ ?_
    · rw [← Option.some.inj took]
      unfold worked
      rw [modify_self (f := id) fun _ _ => rfl]
    · rw [← Option.some.inj took]
      rfl
  | refused e =>
    refine .refused e (Option.some.inj took).symm ?_
    rw [← Option.some.inj took]
    rfl
  | @stored ctx sim space w l stores =>
    obtain ⟨free, read, registered, right, place, written⟩ := stores
    exact .stored ⟨free, read, registered, right, place, written⟩ (changed_of_written written)
      (Option.some.inj took).symm

theorem ledgerMove_of_move {n₀ n n' : Node} (none : ∀ s job, ¬ n₀.Queued s job)
    (bound : n₀.Every Context.Bound) (run : Moves P n₀ n) (move : Move P n n') :
    LedgerMove P n₀ n n' := by
  rcases move_cases move with leaves | ⟨a, given, supply, done⟩ |
    ⟨s, ses, job, pool, ctx, sim, space, w, l, found, taken, stores, done⟩
  · exact .kept leaves.ledger
  · exact .supplied given supply done
  · have queued : n.Queued s job :=
      ⟨ses, found, .inl ((WorkerPool.take_eq_some_job taken).1 ▸ List.mem_cons_self)⟩
    have asked : Asked P s job n₀ n := asked_of_queued none run queued
    have kind := RequestKind.kind_of_writes asked.kind stores.writes
    refine .stored found taken kind asked stores (changed_of_written stores.written)
      (fun given => ?_) done
    -- The context is registered, and the run has kept every registered context bound.
    obtain ⟨c, registered, known⟩ := Option.bind_eq_some_iff.1 stores.registered
    have contexts := every_moves hereditary_bound bound given run s ses found
    exact contexts.found registered known sim stores.right

/-- Any number of sessions share the ledger of a node, and things happen in any order. A move
changes the ledger only if it is supplied from outside, or if a worker serves a request to write
that its session took while it was ready: then it makes the one change that the request names. It is
made with the simulator of the transaction's context, which is for the channel and the transaction
of that context, unless a call that was run from outside came with another one. -/
theorem ledgerMove_of_moves {channels historyless system : List String} {drill : Drill} {n n' : Node}
    (run : Moves P (withChannels channels historyless system drill) n) (move : Move P n n') :
    LedgerMove P (withChannels channels historyless system drill) n n' ∧
      ∀ s ses job pool, n.session? s = some ses → ses.pool.take = some (.job job, pool) →
        job.kind.writes = true → n.work? s = some n' → WriteTurn n n' s ses job pool := by
  refine ⟨ledgerMove_of_move (fun s job there => ?_) (fun s ses found => ?_) run move,
    fun s ses job pool => writeTurn_work?⟩
  · obtain ⟨ses, found, _⟩ := there
    cases found
  · cases found

def setting (channel tx key : String) : Message :=
  { kind := .putState, channel, tx, payload := KeyWrite.codec.encode { key, value := [1] } }

/-- A contract runs a transaction. -/
def storingRun : List Act :=
  [.openSession {} {} .directory, .start 0,
    .contractSends 0 { kind := .register, payload := ContractId.codec.encode { name := "cc:1" } },
    .execute 0 "a" "ch" { kind := .transaction, tx := "t1" } none none]

theorem ledgerMove_of_moves_storingRun :
    let n₀ := withChannels ["ch"] [] [] {}
    let n := (n₀.steps storingRun).act (.contractSends 0 (setting "ch" "t1" "k"))
    ∃ n₁ n₂, n.receive? 0 = some n₁ ∧ n₁.work? 0 = some n₂ ∧
      (n₁.ledger.state "ch" "cc" "k").toOption = some none ∧
      (n₂.ledger.state "ch" "cc" "k").toOption = some (some [1]) ∧
        LedgerMove (·.isBound = true) n₀ n₁ n₂ := by
  intro n₀ n
  have turns : (n.receive? 0).any (fun n₁ =>
      (n₁.ledger.state "ch" "cc" "k").toOption == some none && (n₁.work? 0).any fun n₂ =>
        (n₂.ledger.state "ch" "cc" "k").toOption == some (some [1])) = true := by
    decide +kernel
  obtain ⟨n₁, received, facts⟩ := (Option.any_eq_true ..).1 turns
  obtain ⟨before, turn⟩ := Bool.and_eq_true_iff.1 facts
  obtain ⟨n₂, served, after⟩ := (Option.any_eq_true ..).1 turn
  have there : Moves (·.isBound = true) n₀ (n₀.steps storingRun) :=
    moves_steps (by decide +kernel)
  have asked : Moves (·.isBound = true) n₀ n := there.tail (.act _ rfl fun _ => nofun)
  exact ⟨n₁, n₂, received, served, beq_iff_eq.1 before, beq_iff_eq.1 after,
    (ledgerMove_of_moves (asked.tail (.receive received)) (.work served)).1⟩

/-- A call is run from outside, for a transaction on one channel with a simulator of another. -/
def strayRun : List Act :=
  [.openSession { workers := 1 } {} .directory, .start 0,
    .contractSends 0 { kind := .register, payload := ContractId.codec.encode { name := "cc" } },
    .run 0 "i"
      { target := ContractInstance.ofName "x", spec := { contract := {} }, simulator := ⟨"b", "t1"⟩
        message := { kind := .transaction, channel := "a", tx := "t1" } }]

/-- The only worker of a session is held up while the contract asks to set a key and closes the
connection. -/
def lateRun : List Act :=
  [.ready 0 "a" "t2" none none, .ready 0 "a" "t3" none none, .gate "g",
    .contractSends 0
      { kind := .getState, channel := "a", tx := "t2"
        payload := KeyRef.getCodec.encode { key := "g" } },
    .contractSends 0 (setting "a" "t3" "late"), .contractCloses 0]

/-- A write goes where the simulator of its context is for, which need not be the channel of the
context; and a worker may make it when the session has ended. -/
theorem ledger_strays :
    let n := (withChannels ["a", "b"] [] [] {}).steps strayRun
    let n₁ := n.step (.contractSends 0 (setting "a" "t1" "k"))
    let n₂ := n₁.steps lateRun
    let n₃ := n₂.step (.ungate "g")
    ((n.session? 0).bind fun ses => (ses.transactions.get? "a" "t1").map (·.channel)) = some "a" ∧
      (n.ledger.state "b" "cc" "k").toOption = some none ∧
      (n₁.ledger.state "a" "cc" "k").toOption = some none ∧
      (n₁.ledger.state "b" "cc" "k").toOption = some (some [1]) ∧
      (n₂.session? 0).map (·.phase) = some .ended ∧
      (n₂.ledger.state "a" "cc" "late").toOption = some none ∧
      (n₃.ledger.state "a" "cc" "late").toOption = some (some [1]) := by
  decide +kernel

end Node

end ContractNode
