import ContractNode.Proofs.Isolation
import ContractNode.Proofs.Return

/-!
# What follows an answer

A node at rest serves a request. Until it is at rest again it only shows and forwards answers, and
ends the executions that they end. None of that looks at the ledger.

* `Session.Lull`, `Node.Lull` : there is nothing to do but that;
* `lull_turn?`, `blind_turn?` : a turn of such a node leads to another one, and does not look at the
  ledger;
* `blind_settle` : neither does coming to rest;
* `lull_conclude` : so it is once a worker has served the only request there is.
-/

namespace ContractNode

/-- What is queued for the outbound loop is an answer. -/
def Instruction.IsAnswer (i : Instruction) : Prop :=
  ∃ c, i = .next c ∧ (c.message.kind = .response ∨ c.message.kind = .error) ∧ c.sync = false

theorem Node.answer_reply (m : Message) (result : Except SessionError Bytes) :
    (Node.reply m result).kind = .response ∨ (Node.reply m result).kind = .error := by
  cases result with
  | ok payload => exact .inl rfl
  | error e => exact .inr rfl

namespace Session

/-- A session has nothing to do but to show and forward answers, while the keys of `gates` cannot be
read. -/
structure Lull (ses : Session) (gates : List String) : Prop where
  commands : ses.outbound = .running → ∀ i ∈ ses.commands, i.IsAnswer
  pool : ses.pool.take = none
  dials : ses.dials = []
  parked : ∀ p ∈ ses.parked, p.ref.key ∈ gates
  inbox : ses.inbound = .running → ses.link.inbox.queue = [] ∧ ses.link.inbox.closed = false

variable {ses ses' : Session} {gates : List String}

theorem Quiet.lull (h : ses.Quiet gates) : ses.Lull gates := by
  refine ⟨fun running i mem => ?_, h.pool, h.dials, h.parked, h.inbox⟩
  rw [h.commands running] at mem
  cases mem

theorem Lull.withTransactions (h : ses.Lull gates) (t : Transactions) :
    Lull { ses with transactions := t } gates := ⟨h.commands, h.pool, h.dials, h.parked, h.inbox⟩

theorem Lull.sendAnyway (h : ses.Lull gates) (m : Message) : (ses.sendAnyway m).Lull gates := by
  unfold Session.sendAnyway Session.send
  cases sent : ses.link.send m with
  | error e => exact h
  | ok link =>
    rw [Link.eq_of_send sent]
    exact ⟨h.commands, h.pool, h.dials, h.parked, h.inbox⟩

theorem Lull.reply (h : ses.Lull gates) (kind : RequestKind) (m : Message)
    (result : Except SessionError Bytes) : (ses.reply kind (Node.reply m result)).Lull gates := by
  unfold Session.reply
  split
  · exact h.sendAnyway _
  · unfold trigger enqueue
    split
    · exact h
    · refine ⟨fun running i mem => ?_, h.pool, h.dials, h.parked, h.inbox⟩
      rcases List.mem_append.1 mem with mem | mem
      · exact h.commands running i mem
      · cases List.mem_singleton.1 mem
        exact ⟨_, rfl, Node.answer_reply m result, rfl⟩

theorem Lull.notify (h : ses.Lull gates) (m : Message) : (ses.notify m).Lull gates := by
  unfold Session.notify
  split
  · exact h
  · exact h.withTransactions _

/-- An answer is shown to a session: if it is a failure, whoever waits for the transaction is
told. -/
def hear (ses : Session) (m : Message) : Session :=
  if Node.bypasses ses.phase m.kind then ses.notify m else ses

theorem Lull.hear (h : ses.Lull gates) (m : Message) : (ses.hear m).Lull gates := by
  unfold Session.hear
  split
  · exact h.notify m
  · exact h

/-- The answer that the outbound loop has to show next, and what is queued behind it. -/
def nextAnswer? (ses : Session) : Option (Command × List Instruction) :=
  match ses.outbound, ses.commands with
  | .running, .next c :: rest => some (c, rest)
  | _, _ => none

/-- An answer is shown to a session and forwarded, if it is to be; the rest stays queued. -/
def showAnswer (ses : Session) (c : Command) (rest : List Instruction) : Session :=
  let told := hear { ses with commands := rest } c.message
  if c.forward then told.sendAnyway c.message else told

theorem Lull.showAnswer {c : Command} {rest : List Instruction} (h : ses.Lull gates)
    (next : ses.nextAnswer? = some (c, rest)) : (ses.showAnswer c rest).Lull gates := by
  have queued : ses.commands = .next c :: rest := by
    unfold nextAnswer? at next
    split at next
    · rename_i queued
      cases next
      exact queued
    · cases next
  have left : Lull { ses with commands := rest } gates :=
    ⟨fun running i mem => h.commands running i (by rw [queued]; exact .tail _ mem), h.pool,
      h.dials, h.parked, h.inbox⟩
  unfold Session.showAnswer
  cases c.forward with
  | true => exact (left.hear _).sendAnyway _
  | false => exact left.hear _

end Session

namespace Node

/-- The sessions of a node have nothing to do but to show and forward answers. -/
def Lull (n : Node) : Prop := ∀ s ses, n.session? s = some ses → ses.Lull n.gates

variable {n n' : Node} {s : SessionId} {ses : Session} {l : Ledger}

theorem lull_of_rest (rest : n.AtRest) : n.Lull :=
  fun s ses found => ((atRest_iff.1 rest).2 s ses found).lull

theorem Lull.modify (h : n.Lull) (s : SessionId) {f : Session → Session}
    (kept : ∀ ses, n.session? s = some ses → ses.Lull n.gates → (f ses).Lull n.gates) :
    (n.modify s f).Lull := by
  intro t ses found
  rcases session?_modify_cases found with ⟨rfl, ses', found', rfl⟩ | ⟨_, found⟩
  · exact kept ses' found' (h s ses' found')
  · exact h t ses found

/-! ## Executions that end -/

theorem lull_deliver (h : n.Lull) (origin : Origin) (result : Except SessionError Message) :
    (n.deliver origin result).Lull := by
  cases origin with
  | caller label => exact h
  | request t c m =>
    show (n.answer t ⟨.invoke, m⟩ _).Lull
    rw [answer_eq]
    exact h.modify t fun ses _ lull => (lull.withTransactions _).reply _ _ _

theorem lull_finish? {call : Call} (h : n.Lull) (finished : n.finish? call = some n') :
    n'.Lull := by
  obtain ⟨ctx, m, _, _, rfl⟩ := finish?_cases finished
  have released : (n.released call ctx fun c => { c with slot := c.slot.drop }).Lull :=
    h.modify call.session fun ses _ lull => lull.withTransactions _
  exact lull_deliver released _ _

theorem ledger_finish? {call : Call} (finished : n.finish? call = some n') :
    n'.ledger = n.ledger := by
  obtain ⟨ctx, m, _, _, rfl⟩ := finish?_cases finished
  cases call.origin <;> rfl

theorem blind_finish? (n : Node) (l : Ledger) (call : Call) :
    ({ n with ledger := l } : Node).finish? call =
      (n.finish? call).map fun n' => { n' with ledger := l } := by
  have known : ({ n with ledger := l } : Node).context? call.session call.context =
      n.context? call.session call.context := rfl
  unfold finish?
  rw [known]
  cases n.context? call.session call.context with
  | none => rfl
  | some ctx =>
    cases held : ctx.slot.message with
    | none => simp only [held, Option.map_none]
    | some m =>
      simp only [held, Option.map_some]
      cases call.origin <;> rfl

/-! ## Answers that are shown -/

theorem sessionTurn?_of_lull (h : n.Lull) (found : n.session? s = some ses) :
    n.sessionTurn? s = ses.nextAnswer?.map fun r => n.modify s (·.showAnswer r.1 r.2) := by
  have lull := h s ses found
  have idle : n.sessionTurn? s = n.command? s := by
    unfold sessionTurn?
    rw [(dial?_eq_none_iff found).2 lull.dials, (work?_eq_none_iff found).2 lull.pool,
      (resume?_eq_none_iff found).2 lull.parked, (receive?_eq_none_iff found).2 lull.inbox]
    cases n.command? s <;> rfl
  rw [idle]
  unfold command? Session.nextAnswer?
  simp only [found]
  by_cases running : ses.outbound = .running
  · rw [if_pos running, running]
    cases queued : ses.commands with
    | nil => rfl
    | cons i rest =>
      obtain ⟨c, rfl, answer, async⟩ := lull.commands running i (by rw [queued]; exact .head _)
      have shown : (n.modify s fun ses => { ses with commands := rest }).handle s c.message =
          n.modify s fun ses => Session.hear { ses with commands := rest } c.message :=
        (handle_of_answer s answer).trans (modify_modify ..)
      simp only [carryOut, shown, async, Option.map_some, Option.some.injEq]
      unfold Session.showAnswer
      cases c.forward with
      | true => exact modify_modify ..
      | false => rfl
  · rw [if_neg running]
    cases there : ses.outbound with
    | running => exact absurd there running
    | _ => rfl

/-! ## Turns -/

theorem lull_sessionTurn? (h : n.Lull) (took : n.sessionTurn? s = some n') :
    n'.Lull ∧ n'.ledger = n.ledger := by
  cases found : n.session? s with
  | none =>
    rw [sessionTurn?_missing found] at took
    cases took
  | some ses =>
    rw [sessionTurn?_of_lull h found] at took
    obtain ⟨r, next, rfl⟩ := Option.map_eq_some_iff.1 took
    refine ⟨h.modify s fun ses' found' lull => ?_, rfl⟩
    cases Option.some.inj (found.symm.trans found')
    exact lull.showAnswer next

/-- A turn does not look at the ledger. -/
theorem blind_sessionTurn? (h : n.Lull) (l : Ledger) (s : SessionId) :
    ({ n with ledger := l } : Node).sessionTurn? s =
      (n.sessionTurn? s).map fun n' => { n' with ledger := l } := by
  have lull : ({ n with ledger := l } : Node).Lull := h
  cases found : n.session? s with
  | none =>
    have found' : ({ n with ledger := l } : Node).session? s = none := found
    rw [sessionTurn?_missing found, sessionTurn?_missing found']
    rfl
  | some ses =>
    have found' : ({ n with ledger := l } : Node).session? s = some ses := found
    rw [sessionTurn?_of_lull h found, sessionTurn?_of_lull lull found', Option.map_map]
    rfl

theorem lull_turn? (h : n.Lull) (took : n.turn? = some n') : n'.Lull ∧ n'.ledger = n.ledger := by
  unfold turn? at took
  cases returns : n.calls.findSome? n.finish? with
  | some n₁ =>
    rw [returns] at took
    cases took
    obtain ⟨call, _, finished⟩ := List.exists_of_findSome?_eq_some returns
    exact ⟨lull_finish? h finished, ledger_finish? finished⟩
  | none =>
    rw [returns] at took
    obtain ⟨s, _, took⟩ := List.exists_of_findSome?_eq_some (took : List.findSome? _ _ = _)
    exact lull_sessionTurn? h took

theorem blind_turn? (h : n.Lull) (l : Ledger) :
    ({ n with ledger := l } : Node).turn? = n.turn?.map fun n' => { n' with ledger := l } := by
  have calls : ({ n with ledger := l } : Node).finish? =
      Option.map (fun n' => { n' with ledger := l }) ∘ n.finish? :=
    funext (blind_finish? n l)
  have sessions : ({ n with ledger := l } : Node).sessionTurn? =
      Option.map (fun n' => { n' with ledger := l }) ∘ n.sessionTurn? :=
    funext (blind_sessionTurn? h l)
  unfold turn?
  rw [calls, sessions, ← List.map_findSome?, ← List.map_findSome?]
  cases n.calls.findSome? n.finish? <;> rfl

theorem lull_turns (h : n.Lull) (k : Nat) : (turns k n).ledger = n.ledger := by
  induction k generalizing n with
  | zero => rfl
  | succ k ih =>
    unfold turns
    cases took : n.turn? with
    | none => rfl
    | some n' =>
      obtain ⟨lull, kept⟩ := lull_turn? h took
      exact (ih lull).trans kept

theorem blind_turns (h : n.Lull) (l : Ledger) (k : Nat) :
    turns k { n with ledger := l } = { turns k n with ledger := l } := by
  induction k generalizing n with
  | zero => rfl
  | succ k ih =>
    unfold turns
    rw [blind_turn? h l]
    cases took : n.turn? with
    | none => rfl
    | some n' => exact ih (lull_turn? h took).1

theorem lull_settle (h : n.Lull) : n.settle.ledger = n.ledger := lull_turns h _

/-- Coming to rest does not look at the ledger. -/
theorem blind_settle (h : n.Lull) (l : Ledger) :
    ({ n with ledger := l } : Node).settle = { n.settle with ledger := l } :=
  blind_turns h l n.weight

/-! ## Requests that are served -/

section Worker

variable {job : Job} {pool : WorkerPool Job} {p : Option ParkedRead}

theorem Lull.inside (h : n.Lull) (inside : Inside n n') : n'.Lull := by
  intro s ses' found'
  have gates : n'.gates = n.gates := by rw [inside.rest]
  cases found : n.session? s with
  | none =>
    rw [inside.missing found] at found'
    cases found'
  | some ses =>
    obtain ⟨ses₁, found₁, same⟩ := inside.session found
    cases Option.some.inj (found₁.symm.trans found')
    rw [gates, same.rest]
    exact (h s ses found).withTransactions _

/-- Serving a request gives the workers nothing to do. -/
structure Dealing (n : Node) (s : SessionId) (ses : Session) (p : Option ParkedRead) (n' : Node) :
    Prop where
  lull : n'.Lull
  pool : ∀ ses', n'.session? s = some ses' → ses'.pool = ses.pool
  gated : ∀ q, p = some q → q.ref.key ∈ n'.gates

theorem Dealing.modify {f : Session → Session} (h : Dealing n s ses p n')
    (kept : ∀ ses', ses'.Lull n'.gates → (f ses').Lull n'.gates)
    (pool : ∀ ses', (f ses').pool = ses'.pool) : Dealing n s ses p (n'.modify s f) where
  lull := h.lull.modify s fun ses' _ => kept ses'
  pool ses' found' := by
    rw [session?_modify_if, if_pos rfl] at found'
    obtain ⟨ses₁, found₁, rfl⟩ := Option.map_eq_some_iff.1 found'
    exact (pool ses₁).trans (h.pool ses₁ found₁)
  gated := h.gated

theorem dealing_of_dealt (h : n.Lull) (found : n.session? s = some ses) (other : job.kind ≠ .invoke)
    (dealt : Dealt n s ses job p n') : Dealing n s ses p n' := by
  have same (ses' : Session) (found' : n.session? s = some ses') : ses'.pool = ses.pool := by
    rw [Option.some.inj (found.symm.trans found')]
  have replies {n' : Node} (m : Message) (result : Except SessionError Bytes)
      (lull : n'.Lull) (pool : ∀ ses', n'.session? s = some ses' → ses'.pool = ses.pool) :
      Dealing n s ses none (n'.modify s (·.reply job.kind (Node.reply m result))) :=
    Dealing.modify ⟨lull, pool, fun q is => by cases is⟩
      (fun _ lull' => lull'.reply job.kind m result) fun ses' => (ses'.talks_reply ..).pool
  cases dealt with
  | dropped => exact ⟨h, same, fun q is => by cases is⟩
  | @answered _ result _ inside =>
    refine replies job.message result (h.inside inside) fun ses' found' => ?_
    obtain ⟨ses₁, found₁, within⟩ := inside.session found
    cases Option.some.inj (found₁.symm.trans found')
    rw [within.rest]
  | stored => exact replies job.message (.ok []) h same
  | @parked _ p _ _ _ _ _ _ gated =>
    have waits : Dealing n s ses (some p) n := ⟨h, same, fun q is => by cases is; exact gated⟩
    exact waits.modify (fun ses' lull => lull.withTransactions _) fun _ => rfl
  | calling calls => exact absurd calls other

/-- Once a worker has served a request, and there is no other one, there is nothing to do but to
show and forward answers. -/
theorem lull_conclude (h : n.Lull) (found : n.session? s = some ses) (other : job.kind ≠ .invoke)
    (empty : ses.pool.queue = []) : (conclude s job (n.serve s job)).Lull := by
  have dealing := dealing_of_dealt h found other (dealt_serve found job)
  generalize n.serve s job = r at dealing ⊢
  obtain ⟨p, n'⟩ := r
  cases p with
  | none =>
    show (n'.modify s fun ses => { ses with pool := ses.pool.finish job }).Lull
    refine dealing.lull.modify s fun ses' found' lull => ?_
    have nothing : (ses'.pool.finish job).take = none := WorkerPool.take_eq_none_iff.2 fun _ => by
      rw [WorkerPool.queue_finish, dealing.pool ses' found', empty]
    exact ⟨lull.commands, nothing, lull.dials, lull.parked, lull.inbox⟩
  | some p =>
    show (n'.modify s fun ses => { ses with parked := ses.parked ++ [p] }).Lull
    refine dealing.lull.modify s fun ses' _ lull => ?_
    refine ⟨lull.commands, lull.pool, lull.dials, fun q mem => ?_, lull.inbox⟩
    rcases List.mem_append.1 mem with mem | mem
    · exact lull.parked q mem
    · cases List.mem_singleton.1 mem
      exact dealing.gated p rfl

end Worker

end Node

end ContractNode
