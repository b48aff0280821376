import ContractNode.Proofs.Leaves

/-!
# Requests that write

* `Write`, `Request.write?` : what a request sets or deletes;
* `Ledger.Changed` : a ledger is changed by one write and in no other way (`changed_of_written`);
* `Node.Stores` : everything that has to hold for a request to write the ledger;
* `Node.WriteServed` : a request to write is dropped, or refused with an error, or does write
  (`writeServed_serve`).
-/

namespace ContractNode

/-- A key is given a value or, without one, is deleted. -/
structure Write where
  collection : Option String
  key : String
  value : Option Bytes
deriving DecidableEq, Repr

def Request.write? : Request → Option Write
  | .put w => some ⟨w.collection, w.key, some w.value⟩
  | .delete r => some ⟨r.collection, r.key, none⟩
  | _ => none

def RequestKind.writes : RequestKind → Bool
  | .put | .delete => true
  | _ => false

theorem Request.writes_kind (r : Request) : r.kind.writes = r.write?.isSome := by
  cases r
  all_goals rfl

/-! ## One write -/

/-- A ledger is changed by one write, made with a simulator in a namespace. A write to the public
state is recorded, once and for the transaction of the simulator. -/
structure Ledger.Changed (l l' : Ledger) (sim : Simulator) (space : String) (w : Write) : Prop where
  channels : ∀ channel, l'.hasChannel channel = l.hasChannel channel
  value : (l'.space sim.channel space).read w.collection w.key = w.value
  others : ∀ channel name collection key,
    ¬ (channel = sim.channel ∧ name = space ∧ collection = w.collection ∧ key = w.key) →
      (l'.space channel name).read collection key = (l.space channel name).read collection key
  history : ∀ channel name key, (l'.space channel name).changes key =
    (l.space channel name).changes key ++
      if channel = sim.channel ∧ name = space ∧ w.collection = none ∧ key = w.key then
        [⟨sim.tx, w.value⟩]
      else []

namespace Ledger

variable {l l' : Ledger} {sim : Simulator} {space : String} {w : Write} {f : Space → Space}

theorem onChannel_eq_ok_iff {α : Type} {channel : String} {x y : α} :
    l.onChannel channel x = .ok y ↔ l.hasChannel channel = true ∧ x = y := by
  unfold onChannel
  split
  · rename_i there
    simp [there]
  · rename_i missing
    simp [missing]

/-- A namespace on a channel that exists is changed by one write. -/
theorem changed_updateSpace (there : l.hasChannel sim.channel = true)
    (value : (f (l.space sim.channel space)).read w.collection w.key = w.value)
    (others : ∀ collection key, ¬ (collection = w.collection ∧ key = w.key) →
      (f (l.space sim.channel space)).read collection key =
        (l.space sim.channel space).read collection key)
    (history : ∀ key, (f (l.space sim.channel space)).changes key =
      (l.space sim.channel space).changes key ++
        if w.collection = none ∧ w.key = key then [⟨sim.tx, w.value⟩] else []) :
    l.Changed (l.updateSpace sim.channel space f) sim space w where
  channels channel := by
    rw [hasChannel_updateSpace]
    by_cases same : sim.channel = channel
    · rw [← same, there]
      exact Bool.or_true _
    · simp [same]
  value := by
    rw [space_updateSpace, if_pos ⟨rfl, rfl⟩]
    exact value
  others channel name collection key other := by
    rw [space_updateSpace]
    split
    · rename_i same
      obtain ⟨rfl, rfl⟩ := same
      exact others collection key fun same => other ⟨rfl, rfl, same⟩
    · rfl
  history channel name key := by
    rw [space_updateSpace]
    by_cases same : sim.channel = channel ∧ space = name
    · rw [if_pos same]
      obtain ⟨rfl, rfl⟩ := same
      rw [history]
      simp only [true_and, eq_comm]
    · rw [if_neg same, if_neg]
      · exact (List.append_nil _).symm
      · exact fun all => same ⟨all.1.symm, all.2.1.symm⟩

theorem changed_of_set {collection : Option String} {key : String} {v : Bytes}
    (done : l.set sim space collection key v = .ok l') :
    l.Changed l' sim space ⟨collection, key, some v⟩ := by
  unfold set at done
  split at done
  · cases done
  · obtain ⟨there, rfl⟩ := onChannel_eq_ok_iff.1 done
    refine changed_updateSpace there ?_ (fun collection' key' other => ?_) fun key' => ?_
    · rw [Space.read_write, if_pos ⟨rfl, rfl⟩]
    · rw [Space.read_write, if_neg fun same => other ⟨same.1.symm, same.2.symm⟩]
    · exact Space.changes_write ..

theorem changed_of_delete {collection : Option String} {key : String}
    (done : l.delete sim space collection key = .ok l') :
    l.Changed l' sim space ⟨collection, key, none⟩ := by
  unfold delete at done
  obtain ⟨there, rfl⟩ := onChannel_eq_ok_iff.1 done
  refine changed_updateSpace there ?_ (fun collection' key' other => ?_) fun key' => ?_
  · rw [Space.read_delete, if_pos ⟨rfl, rfl⟩]
  · rw [Space.read_delete, if_neg fun same => other ⟨same.1.symm, same.2.symm⟩]
  · exact Space.changes_delete ..

end Ledger

theorem Drill.eq_of_guard {α : Type} {d : Drill} {action key : String} {x : Except LedgerError α}
    {a : α} (h : d.guard action key x = .ok a) : x = .ok a := by
  unfold guard at h
  split at h
  · cases h
  · exact h

namespace Node

/-! ## Markers -/

def markers (n : Node) (s : SessionId) : Option (List String) :=
  (n.session? s).map (·.transactions.markers)

theorem answer_claimed {n : Node} {s : SessionId} {job : Job}
    (free : ∀ ms, n.markers s = some ms → job.message.key ∉ ms)
    (result : Except SessionError Bytes) :
    (n.modify s (·.claim job.message.key)).answer s job result =
      n.modify s (·.reply job.kind (reply job.message result)) := by
  unfold answer
  rw [modify_modify]
  refine modify_congr fun ses found => ?_
  have absent := free ses.transactions.markers (by simp [markers, found])
  have kept : ses.transactions.markers.filter
      (fun k => k != job.message.key) = ses.transactions.markers :=
    List.filter_eq_self.2 fun k mem => by
      simp only [bne_iff_ne]
      rintro rfl
      exact absent mem
  have back : (ses.transactions.claim job.message.key).unmark
      job.message.channel job.message.tx = ses.transactions := by
    show ({ ses.transactions with
      markers := (job.message.key :: ses.transactions.markers).filter
        fun k => k != job.message.key } : Transactions) = ses.transactions
    rw [List.filter_cons_of_neg (by simp), kept]
  have given : { ses with
      transactions := (ses.transactions.claim job.message.key).unmark job.message.channel
        job.message.tx } = ses := by rw [back]
  unfold Session.reply
  cases job.kind.route with
  | direct => exact congrArg (Session.sendAnyway · (reply job.message result)) given
  | outbound =>
    exact congrArg (fun ses => (Session.trigger ses (reply job.message result) true).2) given

theorem serve_held {n : Node} {s : SessionId} {ses : Session} {job : Job}
    (found : n.session? s = some ses) (held : job.message.key ∈ ses.transactions.markers) :
    n.serve s job = (none, n) := by
  have taken : ses.transactions.mark job.message.channel job.message.tx =
      (false, ses.transactions) := by
    unfold Transactions.mark
    exact if_pos (List.contains_iff_mem.2 held)
  simp only [serve, found, taken]

theorem serve_free {n : Node} {s : SessionId} {ses : Session} {job : Job}
    (found : n.session? s = some ses) (free : job.message.key ∉ ses.transactions.markers) :
    n.serve s job =
      match (n.modify s (·.claim job.message.key)).attempt s (ses.claim job.message.key) job with
      | (.answered result, n') => (none, n'.answer s job result)
      | (.parked p, n') => (some p, n')
      | (.calling, n') => (none, n') := by
  have taken : ses.transactions.mark job.message.channel job.message.tx =
      (true, ses.transactions.claim job.message.key) := by
    unfold Transactions.mark
    exact if_neg fun held => free (List.contains_iff_mem.1 held)
  rw [modify_found found]
  simp only [serve, found, taken]
  rfl

/-! ## Requests -/

def written (n : Node) (sim : Simulator) (space : String) (w : Write) :
    Except LedgerError Ledger :=
  match w.value with
  | some v => n.drill.guard (action w.collection "set_state" "set_private_data") w.key
    (n.ledger.set sim space w.collection w.key v)
  | none => n.drill.guard (action w.collection "delete_state" "delete_private_data") w.key
    (n.ledger.delete sim space w.collection w.key)

theorem changed_of_written {n : Node} {sim : Simulator} {space : String} {w : Write} {l : Ledger}
    (h : n.written sim space w = .ok l) : n.ledger.Changed l sim space w := by
  obtain ⟨collection, key, value⟩ := w
  unfold written at h
  cases value with
  | none => exact Ledger.changed_of_delete (Drill.eq_of_guard h)
  | some v => exact Ledger.changed_of_set (Drill.eq_of_guard h)

/-- A request of a session writes the ledger: its marker is free, it can be read and is a write, its
transaction has a context with a simulator, the contract has registered, and the simulator makes the
write. -/
structure Stores (n : Node) (ses : Session) (job : Job) (ctx : Context) (sim : Simulator)
    (space : String) (w : Write) (l : Ledger) : Prop where
  free : job.message.key ∉ ses.transactions.markers
  read : ∃ r, Request.decode job.kind job.message.payload = .ok r ∧ r.write? = some w
  registered : ses.transactions.get? job.message.channel job.message.tx = some ctx
  right : ctx.simulator = some sim
  place : ses.space = .ok space
  written : n.written sim space w = .ok l

/-- What serving a request to write comes to: it is dropped, or refused with an error, or the ledger
is written and nothing else but the answer follows. -/
inductive WriteServed (n : Node) (s : SessionId) (ses : Session) (job : Job) :
    Option ParkedRead × Node → Prop
  | dropped (held : job.message.key ∈ ses.transactions.markers) : WriteServed n s ses job (none, n)
  | refused (e : SessionError) : WriteServed n s ses job
      (none, n.modify s (·.reply job.kind (reply job.message (.error e))))
  | stored {ctx : Context} {sim : Simulator} {space : String} {w : Write} {l : Ledger}
      (stores : n.Stores ses job ctx sim space w l) : WriteServed n s ses job
      (none, { n with ledger := l }.modify s (·.reply job.kind (reply job.message (.ok []))))

section Serve

variable {n : Node} {s : SessionId} {ses : Session} {job : Job}

theorem perform_of_write {r : Request} {w : Write} (writes : r.write? = some w) (c : Nat)
    (ctx : Context) : n.perform s ses c ctx job r =
      n.withRight ses ctx fun sim space => n.commit (n.written sim space w) := by
  cases r with
  | put w' =>
    cases writes
    rfl
  | delete r' =>
    cases writes
    rfl
  | get | range | query | history | next | close | invoke => cases writes

/-- The answer to a request that has claimed its marker and changed nothing else but the ledger. -/
theorem answer_of_free (found : n.session? s = some ses)
    (free : job.message.key ∉ ses.transactions.markers) (l : Ledger)
    (result : Except SessionError Bytes) :
    ({ n with ledger := l }.modify s (·.claim job.message.key)).answer s job result =
      { n with ledger := l }.modify s (·.reply job.kind (reply job.message result)) := by
  refine answer_claimed (n := { n with ledger := l }) (fun ms known => ?_) result
  have there : ({ n with ledger := l } : Node).session? s = some ses := found
  rw [markers, there] at known
  cases known
  exact free

/-- An attempt to write fails without a trace, or changes the ledger only. -/
theorem attempt_of_writes (n : Node) (s : SessionId) (ses : Session) (writes : job.kind.writes = true) :
    (∃ e, n.attempt s ses job = (.answered (.error e), n)) ∨
      ∃ r ctx sim space w l, Request.decode job.kind job.message.payload = .ok r ∧
        r.write? = some w ∧
        ses.transactions.get? job.message.channel job.message.tx = some ctx ∧
        ctx.simulator = some sim ∧ ses.space = .ok space ∧ n.written sim space w = .ok l ∧
        n.attempt s ses job = (.answered (.ok []), { n with ledger := l }) := by
  unfold attempt
  cases decoded : Request.decode job.kind job.message.payload with
  | error e => exact .inl ⟨_, rfl⟩
  | ok r =>
    have kind := Request.kind_of_decode decoded
    rw [← kind, r.writes_kind, Option.isSome_iff_exists] at writes
    obtain ⟨w, writes⟩ := writes
    simp only
    cases registered : ses.transactions.find? job.message.channel job.message.tx with
    | none => exact .inl ⟨_, rfl⟩
    | some c =>
      simp only
      cases known : ses.transactions.context? c with
      | none => exact .inl ⟨_, rfl⟩
      | some ctx =>
        have got : ses.transactions.get? job.message.channel job.message.tx = some ctx := by
          unfold Transactions.get?
          rw [registered]
          exact known
        simp only [perform_of_write writes, withRight, rightOf]
        cases right : ctx.simulator with
        | none => exact .inl ⟨_, rfl⟩
        | some sim =>
          cases place : ses.space with
          | error e => exact .inl ⟨_, rfl⟩
          | ok space =>
            cases written : n.written sim space w with
            | error e => exact .inl ⟨_, by simp only [written]; rfl⟩
            | ok l =>
              refine .inr ⟨r, ctx, sim, space, w, l, rfl, writes, got, right, rfl, written, ?_⟩
              simp only [written]
              rfl

theorem writeServed_serve (found : n.session? s = some ses) (writes : job.kind.writes = true) :
    WriteServed n s ses job (n.serve s job) := by
  by_cases held : job.message.key ∈ ses.transactions.markers
  · rw [serve_held found held]
    exact .dropped held
  · rw [serve_free found held]
    rcases attempt_of_writes (n.modify s (·.claim job.message.key)) s (ses.claim job.message.key)
      writes with ⟨e, failed⟩ | ⟨r, ctx, sim, space, w, l, decoded, write, got, right, place,
        written, done⟩
    · have answered := answer_of_free found held n.ledger (.error e)
      rw [failed]
      show WriteServed n s ses job (none, answer _ s job (.error e))
      rw [answered]
      exact .refused e
    · have answered := answer_of_free found held l (.ok [])
      rw [done]
      show WriteServed n s ses job
        (none, ({ n with ledger := l }.modify s (·.claim job.message.key)).answer s job (.ok []))
      rw [answered]
      exact .stored ⟨held, ⟨r, decoded, write⟩, got, right, place, written⟩

end Serve

end Node

end ContractNode
