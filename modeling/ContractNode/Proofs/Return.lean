import ContractNode.Proofs.Registered
import Mathlib.Data.List.Pairwise

/-!
# The message that ends a transaction

* `Message.Ends` : a message ends a transaction;
* `step_contractSends` : what a contract sends to a ready session is shown to it at once;
* `turn?_of_work?`, `settle_of_dialled` : what a worker or a thread is given to do, it does next;
* `Node.Returned` : what an execution leaves that returns: its context is not registered any more,
  its cursors are closed, and nothing else has changed;
* `step_of_ends` : the message ends the execution that waits for it, and no other.
-/

namespace ContractNode

def Message.Ends (m : Message) : Prop := m.kind = .completed ∨ m.kind = .error

/-- Every open cursor has been closed, for the first time. -/
structure CursorTable.Closed {σ : Type} [Source σ] (t t' : CursorTable σ) : Prop where
  none : t'.cursors = ∅
  all : t'.retired = t.retired ++ t.cursors.entries.map fun e => (e.1, e.2.close)
  once : ∀ e ∈ t.cursors.entries, e.2.close.closes = 1

theorem CursorTable.closed_closeAll {σ : Type} [Source σ] {t : CursorTable σ} (h : t.Once) :
    t.Closed t.closeAll where
  none := t.cursors_closeAll
  all := t.retired_closeAll
  once e mem := congrArg (· + 1) (h.opened e.1 e.2 (KeyMap.mem_entries_iff.1 mem))

/-- A context is not registered any more, and its cursors are closed. No other context has changed,
nor any marker. -/
structure Transactions.Finished (t : Transactions) (c : Nat) (k : String) (t' : Transactions) :
    Prop where
  markers : t'.markers = t.markers
  index : ∀ k', t'.index.get? k' = if k = k' then none else t.index.get? k'
  others : ∀ c', c ≠ c' → t'.context? c' = t.context? c'
  context : ∃ ctx ctx', t.context? c = some ctx ∧ t'.context? c = some ctx' ∧
    ctx'.badge = ctx.badge ∧ ctx.cursors.Closed ctx'.cursors

namespace Node

/-- What an execution leaves that returns. Nothing has changed but that it waits no longer, and that
its context is given up. -/
structure Returned (n : Node) (call : Call) (k : String) (n' : Node) : Prop where
  rest : n' = { n with sessions := n'.sessions, calls := n'.calls }
  calls : n'.calls = n.calls.filter (· ≠ call)
  others : ∀ s, call.session ≠ s → n'.session? s = n.session? s
  session : ∃ ses t, n.session? call.session = some ses ∧
    n'.session? call.session = some { ses with transactions := t } ∧
      ses.transactions.Finished call.context k t

section Message

variable {n : Node} {s : SessionId} {ses : Session} {m : Message}

/-- A message that ends a transaction passes a ready lifecycle by. -/
theorem handle_of_ends (found : n.session? s = some ses) (ready : ses.phase = .ready)
    (ends : m.Ends) : n.handle s m = n.modify s (·.notify m) := by
  have passes : bypasses ses.phase m.kind = true := by
    rcases ends with kind | kind
    · rw [ready, kind]
      rfl
    · rw [ready, kind]
      rfl
  simp only [handle, found, passes, if_true]

/-- A session that is ready stays so, whatever it is shown. -/
theorem ready_handle (found : n.session? s = some ses) (ready : ses.phase = .ready) :
    ∃ ses', (n.handle s m).session? s = some ses' ∧ ses'.phase = .ready := by
  have handled := handled_handle n s m
  have kept {n' : Node} (same : n'.phases = n.phases) :
      ∃ ses', n'.session? s = some ses' ∧ ses'.phase = .ready := by
    obtain ⟨ses', found', phase⟩ := session?_of_phases same found
    exact ⟨ses', found', phase.trans ready⟩
  generalize n.handle s m = n' at handled ⊢
  cases handled with
  | missing none =>
    rw [none] at found
    cases found
  | passes => exact kept (phases_modify fun ses => (ses.steady_notify m).phase)
  | registers found' other | refused found' other | readies found' other =>
    cases Option.some.inj (found.symm.trans found')
    rw [ready] at other
    cases other
  | calls => exact kept (phases_modify fun _ => rfl)
  | @submits _ kind found' ready' =>
    have course : Course (fun _ _ => True) n (n.submit s ⟨kind, m⟩).2 :=
      course_submit trivial found' ready'
    exact kept course.phases
  | ignored => exact kept rfl

/-- What arrives is shown to the session, and that is all as long as the session goes on. -/
theorem arrive_of_live (found : (n.handle s m).session? s = some ses) (live : ses.phase ≠ .ended) :
    n.arrive s m = n.handle s m := by
  unfold arrive
  split
  · rename_i keepalive
    have handled := handled_handle n s m
    have silent : Event.ofKind? m.kind = none := by rw [keepalive]; rfl
    generalize n.handle s m = n' at handled ⊢
    cases handled with
    | missing | ignored => rfl
    | passes _ passes => simp [bypasses, keepalive] at passes
    | registers _ _ _ raised | refused _ _ _ raised | readies _ _ raised =>
      rw [silent] at raised
      cases raised
    | calls _ _ asks | submits _ _ asks =>
      rw [Message.job?, silent] at asks
      cases asks
  · simp [found, live]

theorem arrive_of_ready (found : n.session? s = some ses) (ready : ses.phase = .ready) :
    n.arrive s m = n.handle s m := by
  obtain ⟨ses', found', ready'⟩ := ready_handle (m := m) found ready
  exact arrive_of_live found' (ready' ▸ Phase.noConfusion)

/-- What arrives on an empty connection is received at once. -/
theorem receive?_of_sent {link : Link} (found : n.session? s = some ses)
    (running : ses.inbound = .running) (empty : ses.link.inbox.queue = [])
    (delivered : ses.link.deliver (.ok m) = .ok link) :
    (n.modifyLink s fun _ => link).receive? s = some (n.arrive s m) := by
  unfold Link.deliver at delivered
  split at delivered
  · cases delivered
  · rename_i p sent
    cases delivered
    obtain ⟨_, _, rfl⟩ := Pipe.send_eq_some_iff.1 sent
    have found' : (n.modifyLink s fun _ => { ses.link with
        inbox := { ses.link.inbox with queue := ses.link.inbox.queue ++ [.ok m] } }).session? s =
          some _ := session?_modify found
    have received : Pipe.receive { ses.link.inbox with queue := ses.link.inbox.queue ++ [.ok m] } =
        (.item (.ok m), { ses.link.inbox with queue := [] }) := by
      rw [empty]
      rfl
    have back : (n.modifyLink s fun _ => { ses.link with
        inbox := { ses.link.inbox with queue := ses.link.inbox.queue ++ [.ok m] } }).modify s
          (·.withInbox { ses.link.inbox with queue := [] }) = n := by
      unfold modifyLink
      rw [modify_modify]
      refine modify_self fun ses' found' => ?_
      cases Option.some.inj (found.symm.trans found')
      show { ses with link := { ses.link with inbox := { ses.link.inbox with queue := [] } } } = ses
      rw [← empty]
    simp only [receive?, found', running, if_true, received, back]

theorem finish?_eq_none_iff {call : Call} : n.finish? call = none ↔
    ∀ ctx, n.context? call.session call.context = some ctx → ctx.slot.message = none := by
  unfold finish?
  cases n.context? call.session call.context with
  | none => simp
  | some ctx =>
    cases held : ctx.slot.message with
    | none => simp [held]
    | some m => simp [held]

/-- On a node at rest, a session that is given something to do is the only one that takes a turn, as
long as the contexts of the executions that wait stay as they are. -/
theorem turn?_of_kept (f : Session → Session) (rest : n.AtRest) (found : n.session? s = some ses)
    (kept : ∀ call ∈ n.calls, call.session = s → (f ses).transactions.context? call.context =
      ses.transactions.context? call.context) :
    (n.modify s f).turn? = (n.modify s f).sessionTurn? s := by
  obtain ⟨waiting, quiet⟩ := atRest_iff.1 rest
  have waiting' : ∀ call ∈ n.calls, (n.modify s f).finish? call = none := fun call waits => by
    have same : (n.modify s f).context? call.session call.context =
        n.context? call.session call.context := by
      unfold context?
      rw [session?_modify_if]
      split
      · rename_i here
        rw [← here, found]
        exact kept call waits here.symm
      · rfl
    rw [finish?_eq_none_iff, same]
    exact finish?_eq_none_iff.1 (waiting call waits)
  have others : ∀ t, t ≠ s → (n.modify s f).sessionTurn? t = none := fun t other => by
    have apart : (n.modify s f).session? t = n.session? t := by
      rw [session?_modify_if, if_neg (Ne.symm other)]
    cases there : n.session? t with
    | none => exact sessionTurn?_missing (apart.trans there)
    | some ses' => exact (sessionTurn?_eq_none_iff (apart.trans there)).2 (quiet t ses' there)
  cases took : (n.modify s f).sessionTurn? s with
  | some n' => exact turn?_of_sessionTurn? (session?_modify found) took waiting' others
  | none =>
    refine orElse_eq_none.2 ⟨List.findSome?_eq_none_iff.2 waiting', ?_⟩
    refine List.findSome?_eq_none_iff.2 fun t _ => ?_
    by_cases here : t = s
    · rw [here, took]
    · exact others t here

theorem turn?_modify (f : Session → Session) (rest : n.AtRest) (found : n.session? s = some ses)
    (same : (f ses).transactions = ses.transactions) :
    (n.modify s f).turn? = (n.modify s f).sessionTurn? s :=
  turn?_of_kept f rest found fun _ _ _ => by rw [same]

/-- A session that is changed, but for the contexts of executions that wait, and has nothing to do
then leaves the node at rest. -/
theorem atRest_of_kept (f : Session → Session) (rest : n.AtRest) (found : n.session? s = some ses)
    (kept : ∀ call ∈ n.calls, call.session = s → (f ses).transactions.context? call.context =
      ses.transactions.context? call.context) (quiet : (f ses).Quiet n.gates) :
    (n.modify s f).AtRest :=
  (turn?_of_kept f rest found kept).trans
    ((sessionTurn?_eq_none_iff (session?_modify found)).2 quiet)

theorem atRest_modify (f : Session → Session) (rest : n.AtRest) (found : n.session? s = some ses)
    (same : (f ses).transactions = ses.transactions) (quiet : (f ses).Quiet n.gates) :
    (n.modify s f).AtRest :=
  atRest_of_kept f rest found (fun _ _ _ => by rw [same]) quiet

theorem step_of_sent (rest : n.AtRest) (found : n.session? s = some ses)
    (running : ses.inbound = .running) (sent : (n.contractSends s m).1 = .ok ()) :
    n.step (.contractSends s m) = (n.arrive s m).settle := by
  have still := (atRest_iff.1 rest).2 s ses found
  obtain ⟨empty, _⟩ := still.inbox running
  unfold step
  show (n.contractSends s m).2.settle = _
  unfold contractSends fromContract at sent ⊢
  simp only [found] at sent ⊢
  cases delivered : ses.link.deliver (.ok m) with
  | error e =>
    rw [delivered] at sent
    cases sent
  | ok link =>
    have found' : (n.modifyLink s fun _ => link).session? s = some { ses with link } :=
      session?_modify found
    have turn : (n.modifyLink s fun _ => link).turn? = some (n.arrive s m) := by
      refine (turn?_modify (fun ses => { ses with link }) rest found rfl).trans ?_
      show (n.modifyLink s fun _ => link).sessionTurn? s = _
      unfold sessionTurn?
      rw [(dial?_eq_none_iff found').2 still.dials, (command?_eq_none_iff found').2 still.commands,
        (work?_eq_none_iff found').2 still.pool, (resume?_eq_none_iff found').2 still.parked,
        receive?_of_sent found running empty delivered]
      rfl
    exact settle_of_turn turn

/-- What a contract sends to a ready session is shown to it at once. -/
theorem step_contractSends (rest : n.AtRest) (found : n.session? s = some ses)
    (ready : ses.phase = .ready) (running : ses.inbound = .running)
    (sent : (n.contractSends s m).1 = .ok ()) :
    n.step (.contractSends s m) = (n.handle s m).settle := by
  rw [step_of_sent rest found running sent, arrive_of_ready found ready]

end Message

/-! ## Work that is given to a worker -/

section Work

variable {n n' : Node} {s : SessionId} {ses : Session} {job : Job} {pool : WorkerPool Job}

/-- An idle worker takes up what is queued, if there is nothing else. -/
theorem take_queued {p : WorkerPool Job} (idle : 0 < p.idle) (queue : p.queue = []) (job : Job) :
    WorkerPool.take { p with queue := p.queue ++ [.job job] } =
      some (.job job, { p with idle := p.idle - 1, busy := p.busy ++ [job] }) := by
  obtain ⟨k, more⟩ := Nat.exists_eq_succ_of_ne_zero (Nat.pos_iff_ne_zero.1 idle)
  obtain ⟨size, queued, idles, busy⟩ := p
  cases queue
  cases more
  rfl

theorem submit_eq (found : n.session? s = some ses) (idle : 0 < ses.pool.idle) :
    (n.submit s job).2 = n.modify s fun ses =>
      { ses with pool := { ses.pool with queue := ses.pool.queue ++ [.job job] } } := by
  have alive : ses.pool.isAlive = true := by
    simp [WorkerPool.isAlive, Nat.pos_iff_ne_zero.1 idle]
  simp only [submit, found, Session.submit, WorkerPool.submit, alive, if_true]
  exact modify_congr fun ses' found' => by cases Option.some.inj (found.symm.trans found'); rfl

/-- A worker is done with a request, unless it waits for a key. -/
def conclude (s : SessionId) (job : Job) : Option ParkedRead × Node → Node
  | (none, n) => n.modify s fun ses => { ses with pool := ses.pool.finish job }
  | (some p, n) => n.modify s fun ses => { ses with parked := ses.parked ++ [p] }

theorem work?_of_job (found : n.session? s = some ses)
    (taken : ses.pool.take = some (.job job, pool)) :
    n.work? s =
      some (conclude s job ((n.modify s fun ses => { ses with pool }).serve s job)) := by
  simp only [work?, found, taken]
  rfl

/-- On a node at rest, a worker that is given something to do does it next. -/
theorem turn?_of_work? (rest : n.AtRest) (found : n.session? s = some ses)
    {f : Session → WorkerPool Job}
    (took : (n.modify s fun ses => { ses with pool := f ses }).work? s = some n') :
    (n.modify s fun ses => { ses with pool := f ses }).turn? = some n' := by
  have still := (atRest_iff.1 rest).2 s ses found
  have found' := session?_modify (f := fun ses => { ses with pool := f ses }) found
  refine (turn?_modify (fun ses => { ses with pool := f ses }) rest found rfl).trans ?_
  unfold sessionTurn?
  rw [(dial?_eq_none_iff found').2 still.dials, (command?_eq_none_iff found').2 still.commands, took]
  rfl

theorem pickUp_dial {ses : Session} (none : ses.dials = []) (m : Message) :
    (ses.dial m).pickUp m = ses := by
  simp only [Session.pickUp, Session.dial, none, List.nil_append, List.erase_cons_head]
  rw [← none]

/-- On a node at rest, a call request that is given to a thread is taken up next. -/
theorem settle_of_dialled (rest : n.AtRest) (found : n.session? s = some ses) (m : Message) :
    (n.modify s (·.dial m)).settle = ((n.modify s (·.dial m)).dial s m).settle := by
  have still := (atRest_iff.1 rest).2 s ses found
  have found' := session?_modify (f := (·.dial m)) found
  have took : (n.modify s (·.dial m)).dial? s = some ((n.modify s (·.dial m)).dial s m) := by
    have queued : (ses.dial m).dials = [m] := by simp [Session.dial, still.dials]
    simp only [dial?, found', queued, List.head?_cons, Option.map_some]
  refine settle_of_turn ((turn?_modify (·.dial m) rest found rfl).trans ?_)
  rw [sessionTurn?, took]
  rfl

theorem dial_dialled (found : n.session? s = some ses) (none : ses.dials = []) (m : Message) :
    (n.modify s (·.dial m)).dial s m = (n.serve s ⟨.invoke, m⟩).2 := by
  have back : (n.modify s (·.dial m)).modify s (·.pickUp m) = n := by
    rw [modify_modify]
    refine modify_self fun ses' found' => ?_
    cases Option.some.inj (found.symm.trans found')
    exact pickUp_dial none m
  rw [dial, back]

end Work

/-! ## The execution that waits -/

section Returned

variable {n n' : Node} {call : Call} {ses : Session} {ctx : Context} {m : Message}

theorem apart_of_ne (sound : n.Sound) {a b : Call} (memA : a ∈ n.calls) (memB : b ∈ n.calls)
    (other : a ≠ b) : Apart a b := by
  have : Std.Symm Apart := ⟨fun a b apart same => apart ⟨same.1.symm, same.2.symm⟩⟩
  exact sound.apart.forall memA memB other

theorem notify_registered {s : SessionId} {c : Nat} (found : n.session? s = some ses)
    (registered : ses.transactions.find? m.channel m.tx = some c) :
    n.modify s (·.notify m) = n.modifyContext s c (·.notify m) := by
  refine modify_congr fun ses' found' => ?_
  cases Option.some.inj (found.symm.trans found')
  simp only [Session.notify, registered]

/-- A message fits in a slot that is held and empty. -/
theorem message_notify_held (held : ctx.slot.receiver = .held) (empty : ctx.slot.message = none) :
    (ctx.notify m).slot.message = some m := by
  show (ctx.slot.notify m).2.message = some m
  rw [Slot.message_notify, if_pos]
  simp [Slot.isFree, held, empty]

/-- An execution that has been handed a message returns with it. -/
def returned (n : Node) (call : Call) (ctx : Context) (m : Message) : Node :=
  (n.modifyContext call.session call.context (·.notify m)).retire call (ctx.notify m)

theorem turn?_of_notified (sound : n.Sound) (rest : n.AtRest) (waits : call ∈ n.calls)
    (known : n.context? call.session call.context = some ctx) :
    (n.modifyContext call.session call.context (·.notify m)).turn? =
      some ((n.returned call ctx m).deliver call.origin (.ok m)) := by
  obtain ⟨waiting, _⟩ := atRest_iff.1 rest
  have lookup := n.context?_modifyContext call.session
  refine turn?_of_finish? waits ?_ fun call' waits' other => ?_
  · obtain ⟨_, known', held⟩ := sound.waits call waits
    cases Option.some.inj (known.symm.trans known')
    have empty := finish?_eq_none_iff.1 (waiting call waits) ctx known
    simp only [finish?, lookup, and_self, if_true, known, Option.map_some,
      message_notify_held (m := m) held empty]
    rfl
  · rw [finish?_eq_none_iff, lookup, if_neg]
    · exact finish?_eq_none_iff.1 (waiting call' waits')
    · exact fun same => apart_of_ne sound waits' waits other ⟨same.1.symm, same.2.symm⟩

theorem calls_forget (sound : n.Sound) (waits : call ∈ n.calls) :
    (n.forget call).calls = n.calls.filter (· ≠ call) := by
  refine List.filter_congr fun call' waits' => ?_
  by_cases same : call' = call
  · simp [same]
  · have apart := apart_of_ne sound waits' waits same
    unfold Apart at apart
    rw [decide_eq_true same]
    simp only [Bool.or_eq_true, bne_iff_ne]
    rw [not_and_or] at apart
    exact apart

theorem returned_spec (sound : n.Sound) (waits : call ∈ n.calls)
    (found : n.session? call.session = some ses)
    (registered : ses.transactions.find? m.channel m.tx = some call.context)
    (known : ses.transactions.context? call.context = some ctx) :
    Returned n call m.key (n.returned call ctx m) := by
  have transactions := sound.transactions _ ses found
  have key : ctx.key = m.key := by
    obtain ⟨ctx', known', same⟩ := transactions.indexed m.key call.context registered
    cases Option.some.inj (known.symm.trans known')
    exact same
  have changed : n.returned call ctx m = (n.modify call.session fun ses =>
      { ses with
        transactions := ((ses.transactions.modify call.context (·.notify m)).modify call.context
          fun c => { c with slot := c.slot.drop }).delete ctx.channel ctx.tx }).forget call := by
    unfold returned
    rw [retire_eq]
    unfold released modifyContext
    rw [modify_modify]
    rfl
  have lookup (no : Nat) := (ses.transactions.modify call.context (·.notify m)).context?_modify
    call.context no fun c => { c with slot := c.slot.drop }
  rw [changed]
  refine ⟨rfl, (calls_forget sound waits :), fun s other => ?_, ses, _, found,
    session?_modify found, rfl, fun k => ?_, fun no other => ?_,
    ctx, { ctx.notify m with slot := (ctx.notify m).slot.drop }, known, ?_, rfl, ?_⟩
  · exact (session?_modify_if ..).trans (if_neg other)
  · rw [← key]
    exact KeyMap.get?_erase ..
  · refine (lookup no).trans ?_
    rw [if_neg other, Transactions.context?_modify, if_neg other]
  · refine (lookup call.context).trans ?_
    rw [if_pos rfl, Transactions.context?_modify, if_pos rfl, known]
    rfl
  · exact CursorTable.closed_closeAll (transactions.clean _ ctx known)

/-- Where an execution has returned, nothing can go on. -/
theorem Returned.atRest {k : String} (sound : n.Sound) (rest : n.AtRest) (waits : call ∈ n.calls)
    (h : Returned n call k n') : n'.AtRest := by
  obtain ⟨waiting, quiet⟩ := atRest_iff.1 rest
  obtain ⟨ses, t, found, found', finished⟩ := h.session
  have gates : n'.gates = n.gates := by rw [h.rest]
  refine atRest_iff.2 ⟨fun call' waits' => finish?_eq_none_iff.2 fun ctx known => ?_,
    fun s ses' found'' => ?_⟩
  · rw [h.calls] at waits'
    obtain ⟨waits', other⟩ := List.mem_filter.1 waits'
    have apart := apart_of_ne sound waits' waits (of_decide_eq_true other)
    refine finish?_eq_none_iff.1 (waiting call' waits') ctx ?_
    by_cases same : call.session = call'.session
    · obtain ⟨ses', there, known⟩ := context?_eq_some_iff.1 known
      rw [← same, found'] at there
      cases there
      refine context?_eq_some_iff.2 ⟨ses, same ▸ found, ?_⟩
      rw [← finished.others call'.context fun e => apart ⟨same.symm, e.symm⟩]
      exact known
    · obtain ⟨ses', there, known⟩ := context?_eq_some_iff.1 known
      rw [h.others _ same] at there
      exact context?_eq_some_iff.2 ⟨ses', there, known⟩
  · rw [gates]
    by_cases same : call.session = s
    · subst same
      cases Option.some.inj (found''.symm.trans found')
      have still := quiet _ ses found
      exact ⟨still.commands, still.pool, still.dials, still.parked, still.inbox⟩
    · exact quiet s ses' ((h.others s same).symm.trans found'')

end Returned

theorem atRest_results {n : Node} (rest : n.AtRest)
    (results : List (String × Except SessionError Message)) : { n with results }.AtRest := by
  obtain ⟨waiting, quiet⟩ := atRest_iff.1 rest
  refine atRest_iff.2 ⟨fun call waits => ?_, quiet⟩
  have silent := finish?_eq_none_iff.1 (waiting call waits)
  exact finish?_eq_none_iff.2 silent

/-! ## The whole step -/

section Step

variable {n : Node} {s : SessionId} {ses : Session} {m : Message}

/-- A message that ends a transaction which has no context changes nothing. -/
theorem step_of_unknown (rest : n.AtRest) (found : n.session? s = some ses)
    (ready : ses.phase = .ready) (running : ses.inbound = .running) (ends : m.Ends)
    (sent : (n.contractSends s m).1 = .ok ())
    (unknown : ses.transactions.find? m.channel m.tx = none) :
    n.step (.contractSends s m) = n := by
  have same : n.modify s (·.notify m) = n := by
    refine modify_self fun ses' found' => ?_
    cases Option.some.inj (found.symm.trans found')
    simp only [Session.notify, unknown]
  rw [step_contractSends rest found ready running sent, handle_of_ends found ready ends, same,
    settle_of_atRest rest]

/-- A message that ends a transaction for which an execution waits is its result. -/
theorem step_of_waiting {call : Call} (sound : n.Sound) (rest : n.AtRest) (waits : call ∈ n.calls)
    (found : n.session? call.session = some ses) (ready : ses.phase = .ready)
    (running : ses.inbound = .running) (ends : m.Ends)
    (sent : (n.contractSends call.session m).1 = .ok ())
    (registered : ses.transactions.find? m.channel m.tx = some call.context) :
    ∃ n', Returned n call m.key n' ∧
      n.step (.contractSends call.session m) = (n'.deliver call.origin (.ok m)).settle ∧
      ∀ label, call.origin = .caller label → n.step (.contractSends call.session m) =
        { n' with results := n'.results ++ [(label, .ok m)] } := by
  obtain ⟨ctx, known, _⟩ := sound.waits call waits
  have turn := turn?_of_notified (m := m) sound rest waits known
  obtain ⟨ses', found', known⟩ := context?_eq_some_iff.1 known
  cases Option.some.inj (found.symm.trans found')
  have spec := returned_spec sound waits found registered known
  have leads : n.step (.contractSends call.session m) =
      ((n.returned call ctx m).deliver call.origin (.ok m)).settle := by
    rw [step_contractSends rest found ready running sent, handle_of_ends found ready ends,
      notify_registered found registered, settle_of_turn turn]
  refine ⟨n.returned call ctx m, spec, leads, fun label caller => ?_⟩
  rw [leads, caller]
  exact settle_of_atRest (atRest_results (spec.atRest sound rest waits) _)

end Step

/-- A message that ends a transaction, from the contract of a ready session, is the result of the
execution that waits for it. The execution gives its context up, whose cursors are closed, and
nothing else changes but for what the result leads to. Without a context for it, the message changes
nothing at all.

The context of an execution that waits is registered, unless it was deleted as if it belonged to a
handshake. -/
theorem step_of_ends {P : Act → Prop} {channels historyless system : List String} {drill : Drill}
    {n : Node} {s : SessionId} {ses : Session} {m : Message}
    (run : Moves P (withChannels channels historyless system drill) n) (rest : n.AtRest)
    (found : n.session? s = some ses) (ready : ses.phase = .ready)
    (running : ses.inbound = .running) (ends : m.Ends) (sent : (n.contractSends s m).1 = .ok ()) :
    (∀ call ∈ n.calls, call.session = s →
      ∀ ctx, ses.transactions.context? call.context = some ctx → ctx.key = m.key →
        (ses.transactions.isRegistered call.context = true ∨
          ∃ hs, Watched.Moves ⟨withChannels channels historyless system drill, []⟩ ⟨n, hs⟩) →
        ∃ n', Returned n call m.key n' ∧
          n.step (.contractSends s m) = (n'.deliver call.origin (.ok m)).settle ∧
          ∀ label, call.origin = .caller label → n.step (.contractSends s m) =
            { n' with results := n'.results ++ [(label, .ok m)] }) ∧
      (ses.transactions.find? m.channel m.tx = none → n.step (.contractSends s m) = n) := by
  have sound : n.Sound := sound_moves (sound_withChannels ..) run
  refine ⟨fun call waits same ctx known key kept => ?_,
    step_of_unknown rest found ready running ends sent⟩
  subst same
  refine step_of_waiting sound rest waits found ready running ends sent ?_
  rcases kept with registered | ⟨hs, moves⟩
  · obtain ⟨⟨k, c⟩, entry, same⟩ := List.any_eq_true.1 registered
    cases beq_iff_eq.1 same
    have indexed := KeyMap.mem_entries_iff.1 entry
    obtain ⟨ctx', known', key'⟩ := (sound.transactions _ ses found).indexed k _ indexed
    cases Option.some.inj (known.symm.trans known')
    cases key'.symm.trans key
    exact indexed
  · obtain ⟨_, run⟩ := Watched.run_of_moves moves
    have tidy := Watched.tidy_of_run
      (tidy_withChannels channels historyless system drill fun _ => False) run
    obtain ⟨ctx', known', registered⟩ := found_of_call tidy waits found
    cases Option.some.inj (known.symm.trans known')
    unfold Transactions.find? at registered ⊢
    unfold Context.key Message.key at key
    rwa [key] at registered

/-- A contract runs a transaction, and has not answered yet. -/
def waitingRun : List Act :=
  [.openSession {} {} .directory, .start 0,
    .contractSends 0 { kind := .register, payload := ContractId.codec.encode { name := "cc:1" } },
    .execute 0 "a" "ch" { kind := .transaction, tx := "t1" } none none]

theorem step_of_ends_waitingRun :
    let n := (withChannels ["ch"] [] [] {}).steps waitingRun
    let m : Message := { kind := .completed, channel := "ch", tx := "t1", payload := [7] }
    ∃ n', Returned n ⟨0, 0, .caller "a", none⟩ "cht1" n' ∧
      n.step (.contractSends 0 m) = { n' with results := n'.results ++ [("a", .ok m)] } := by
  intro n m
  have there : (n.session? 0).any (fun ses => ses.phase == .ready && ses.inbound == .running &&
      (ses.transactions.context? 0).any fun ctx => ctx.key == m.key) = true := by decide +kernel
  obtain ⟨ses, found, facts⟩ := (Option.any_eq_true ..).1 there
  simp only [Bool.and_eq_true, beq_iff_eq] at facts
  obtain ⟨⟨ready, running⟩, context⟩ := facts
  obtain ⟨ctx, known, key⟩ := (Option.any_eq_true ..).1 context
  have waiting : n.calls = [⟨0, 0, .caller "a", none⟩] := by decide +kernel
  have sent : (n.contractSends 0 m).1 = .ok () := by decide +kernel
  have run : Moves (fun _ => True) (withChannels ["ch"] [] [] {}) n := moves_steps fun _ _ => trivial
  have rest : n.AtRest := atRest_steps (atRest_withChannels ..) _
  have watched : ∃ hs, Watched.Moves ⟨withChannels ["ch"] [] [] {}, []⟩ ⟨n, hs⟩ :=
    Watched.moves_of_steps (atRest_withChannels ..) (by decide +kernel)
  obtain ⟨returns, _⟩ := step_of_ends run rest found ready running (.inl rfl) sent
  obtain ⟨n', returned, _, result⟩ := returns _ (waiting ▸ List.mem_cons_self) rfl ctx known
    (beq_iff_eq.1 key) (.inr watched)
  exact ⟨n', returned, result "a" rfl⟩

/-- An execution whose context somebody has deleted is not found by the message that ends it, and
waits on. -/
theorem waits_of_deleted :
    let n := (withChannels ["ch"] [] [] {}).steps (waitingRun ++ [.deleteContext 0 "ch" "t1"])
    let m : Message := { kind := .completed, channel := "ch", tx := "t1", payload := [7] }
    (n.session? 0).map (·.phase) = some .ready ∧ n.calls = [⟨0, 0, .caller "a", none⟩] ∧
      (n.context? 0 0).map (·.key) = some m.key ∧ (n.contractSends 0 m).1.isOk = true ∧
      (n.step (.contractSends 0 m)).calls = n.calls ∧
        (n.step (.contractSends 0 m)).results.isEmpty = true := by
  decide +kernel

end Node

end ContractNode
