import ContractNode.Proofs.DeskWork
import ContractNode.Proofs.Return

/-!
# The desks of a node

Every session of a node has its desk. Serving a request and showing a message to a lifecycle are
trails there.

* `Origin.asked?`, `Node.ownCalls`, `Node.desk` : the desk of a session;
* `Minute.Ensues`, `Minute.Serves` : the minutes that these trails are made of;
* `Desk.Comes` : a desk comes out as expected, unless it is shut;
* `trail_dealt` : a request that is served;
* `trail_handle` : a message that is shown to a lifecycle;
* `shut_endSession`, `shut_stopInbound`, `shut_stopOutbound` : the end of a session.
-/

namespace ContractNode

/-- The request that waits for an execution, if the contract of a session made it. -/
def Origin.asked? (s : SessionId) : Origin → Option Job
  | .caller _ => none
  | .request t _ m => if t = s then some ⟨.invoke, m⟩ else none

theorem Origin.kind_of_asked? {s : SessionId} {o : Origin} {job : Job} (h : o.asked? s = some job) :
    job.kind = .invoke := by
  unfold asked? at h
  split at h
  · cases h
  · split at h
    · cases h
      rfl
    · cases h

/-- What may come of serving a request besides its answer, and of showing a message to a lifecycle:
nothing is sent or queued but messages of the node itself. -/
def Minute.Ensues : Minute → Prop
  | .ordered c => c.message.kind = .transaction ∨ c.message.kind = .ready
  | .said m => m.kind = .registered
  | .aside => True
  | _ => False

/-- What may come of serving a request. -/
def Minute.Serves (job : Job) (e : Minute) : Prop :=
  e = .dropped job ∨ (∃ r, e = .answered job r) ∨ e = .waits job ∨ e.Ensues

namespace Desk

variable {d d₁ d' : Desk} {e : Minute} {es : List Minute}

/-- A desk comes out as expected, unless it is shut. -/
def Comes (d d' : Desk) : Prop := d' = d ∨ d.Shut d'

theorem Step.comes (h : d.Step e d₁) (comes : d₁.Comes d') : d.Step e d' := by
  rcases comes with rfl | shut
  · exact h
  · exact h.shut shut

theorem Comes.trail (h : d.Comes d') : ∃ es, Trail d es d' ∧ ∀ e ∈ es, e = .aside := by
  rcases h with rfl | shut
  · exact ⟨[], .nil _, by simp⟩
  · exact ⟨[.aside], .single (step_shut shut), by simp⟩

theorem Comes.withPool (h : d.Comes d') (pool : WorkerPool Job) :
    { d with pool }.Comes { d' with pool } := by
  rcases h with rfl | shut
  · exact .inl rfl
  · exact .inr ⟨shut.isOpen, fun goesOn => ⟨(shut.crew goesOn).1, rfl, (shut.crew goesOn).2.2⟩,
      shut.markers, shut.parked, shut.calls⟩

theorem reply_withPool (d : Desk) (pool pool' : WorkerPool Job) (kind : RequestKind) (r : Message) :
    { { d with pool }.reply kind r with pool := pool' } =
      { d with pool := pool' }.reply kind r := by
  unfold reply
  cases kind.route with
  | direct => rfl
  | outbound => rfl

theorem trail_ordered (d : Desk) (c : Command) (p : Prop) [Decidable p] :
    ∃ es, Trail d es { d with commands := d.commands ++ if p then [.next c] else [] } ∧
      ∀ e ∈ es, e = .ordered c := by
  split
  · exact ⟨[.ordered c], .single (d.step_ordered c), by simp⟩
  · exact ⟨[], by rw [List.append_nil]; exact .nil _, by simp⟩

theorem present_early {d : Desk} (early : d.isReady = false) (m : Message) : d.present m = d := by
  rw [present, early]
  rfl

theorem present_none {m : Message} (d : Desk) (no : m.job? = none) : d.present m = d := by
  rw [present, no]
  exact ite_self d

theorem present_job {d : Desk} {m : Message} {job : Job} (ready : d.isReady = true)
    (asks : m.job? = some job) : d.present m = d.ask job := by
  rw [present, ready, asks]
  rfl

/-- Workers that are in order can be given requests. -/
theorem Staffed.isAlive {d : Desk} (h : d.Staffed) : d.pool.isAlive = true := by
  have positive := h.positive
  have whole := h.whole
  have busy := h.busy.length_eq
  rw [List.length_map] at busy
  unfold WorkerPool.isAlive
  cases idle : d.pool.idle with
  | succ k => rfl
  | zero =>
    cases under : d.pool.busy with
    | cons job rest => rfl
    | nil =>
      rw [under, List.length_nil] at busy
      omega

end Desk

namespace Link

variable {l l' : Link} {m : Message}

theorem send_eq_error {e : StreamError} (refused : l.send m = .error e) :
    l.broken = true ∨ l.outbox.closed = true ∨ l.outbox.abandoned = true := by
  unfold send at refused
  split at refused
  · rename_i broken
    exact .inl broken
  · split at refused
    · rename_i off
      unfold Pipe.send at off
      split at off
      · rename_i gone
        exact .inr (Bool.or_eq_true_iff.1 gone)
      · cases off
    · cases refused

end Link

namespace Session

variable {ses : Session} {calls : List Job}

theorem desk_notify (ses : Session) (calls : List Job) (m : Message) :
    (ses.notify m).desk calls = ses.desk calls := by
  unfold notify
  split
  · rfl
  · rfl

theorem desk_notifyAll (ses : Session) (calls : List Job) :
    ses.notifyAll.desk calls = ses.desk calls := by
  have markers (l : List Nat) (t : Transactions) :
      (l.foldl (fun t n => t.modify n fun c => c.notify ⟨.error, c.channel, c.tx, farewell, none⟩)
        t).markers = t.markers := by
    induction l generalizing t with
    | nil => rfl
    | cons c l ih => exact ih _
  unfold desk notifyAll
  rw [markers]
  rfl

/-- Messages go to the contract as expected, unless nothing reaches it any more. -/
theorem comes_sendAnyway (ses : Session) (calls : List Job) (m : Message) :
    Desk.Comes { ses.desk calls with outbox := (ses.desk calls).outbox ++ [m] }
      ((ses.sendAnyway m).desk calls) := by
  unfold sendAnyway send
  cases sent : ses.link.send m with
  | error e =>
    refine .inr ⟨?_, fun goesOn => ⟨goesOn, rfl, rfl⟩, rfl, rfl, rfl⟩
    rcases Link.send_eq_error sent with broken | closed | abandoned
    · simp [desk, isOpen, Except.toOption, broken]
    · simp [desk, isOpen, Except.toOption, closed]
    · simp [desk, isOpen, Except.toOption, abandoned]
  | ok link =>
    rw [Link.eq_of_send sent]
    exact .inl rfl

theorem comes_enqueue (ses : Session) (calls : List Job) (c : Command) :
    Desk.Comes { ses.desk calls with commands := (ses.desk calls).commands ++ [.next c] }
      ((ses.enqueue c).2.desk calls) := by
  unfold enqueue
  split
  · rename_i off
    refine .inr ⟨?_, fun goesOn => ⟨goesOn, rfl, rfl⟩, rfl, rfl, rfl⟩
    simp [desk, isOpen, off]
  · exact .inl rfl

theorem comes_reply (ses : Session) (calls : List Job) (kind : RequestKind) (r : Message) :
    ((ses.desk calls).reply kind r).Comes ((ses.reply kind r).desk calls) := by
  unfold Desk.reply reply
  cases kind.route with
  | direct => exact ses.comes_sendAnyway calls r
  | outbound => exact ses.comes_enqueue calls _

end Session

namespace Node

variable {n n' : Node} {s t : SessionId} {ses : Session}

/-- The requests of a session whose calls have not returned. -/
def ownCalls (n : Node) (s : SessionId) : List Job :=
  n.calls.filterMap (·.origin.asked? s)

/-- The desk of a session. One that does not exist yet has nothing on it, and is not open. -/
def desk (n : Node) (s : SessionId) : Desk :=
  match n.session? s with
  | some ses => ses.desk (n.ownCalls s)
  | none => { ({} : Session).desk (n.ownCalls s) with isOpen := false }

theorem desk_found (found : n.session? s = some ses) : n.desk s = ses.desk (n.ownCalls s) := by
  simp [desk, found]

/-- As long as a session is left alone, only the requests that wait for calls can change. -/
theorem desk_of_session? (same : n'.session? s = n.session? s) :
    n'.desk s = { n.desk s with calls := n'.ownCalls s } := by
  unfold desk
  rw [same]
  cases n.session? s with
  | none => rfl
  | some ses => rfl

theorem calls_desk (n : Node) (s : SessionId) : (n.desk s).calls = n.ownCalls s := by
  unfold desk
  split
  · rfl
  · rfl

theorem desk_modify {f : Session → Session} (found : n.session? s = some ses) :
    (n.modify s f).desk s = (f ses).desk (n.ownCalls s) := desk_found (session?_modify found)

theorem desk_apart (n : Node) (s t : SessionId) {f : Session → Session}
    (h : s = t → ∀ ses, n.session? s = some ses → ∀ calls, (f ses).desk calls = ses.desk calls) :
    (n.modify s f).desk t = n.desk t := by
  by_cases same : s = t
  · subst same
    cases found : n.session? s with
    | none =>
      have none : (n.modify s f).session? s = none := by
        rw [session?_modify_if, if_pos rfl, found]
        rfl
      simp only [desk, none, found]
      rfl
    | some ses => rw [desk_modify found, desk_found found, h rfl ses found]
  · have other : (n.modify s f).session? t = n.session? t := by
      rw [session?_modify_if, if_neg same]
    simp only [desk, other]
    rfl

theorem desk_modify_other {f : Session → Session} (other : s ≠ t) :
    (n.modify s f).desk t = n.desk t := desk_apart n s t fun same => absurd same other

theorem desk_outside (sessions : n'.sessions = n.sessions) (calls : n'.calls = n.calls)
    (s : SessionId) : n'.desk s = n.desk s := by
  unfold desk session? ownCalls
  rw [sessions, calls]

theorem desk_inside (inside : Inside n n') (s : SessionId) : n'.desk s = n.desk s := by
  have own : n'.ownCalls s = n.ownCalls s := by unfold ownCalls; rw [inside.calls]
  cases found : n.session? s with
  | none =>
    simp only [desk, found, inside.missing found, own]
  | some ses =>
    obtain ⟨ses', found', inside'⟩ := inside.session found
    rw [desk_found found, desk_found found', own, inside'.rest]
    unfold Session.desk Session.isOpen
    rw [inside'.transactions.markers]

/-! ## Registration -/

theorem desk_listed (n : Node) (s t : SessionId) (id : ContractId) (directory : Directory) :
    (n.listed s id directory).desk t = n.desk t := by
  unfold listed
  rw [desk_apart]
  · exact desk_outside rfl rfl t
  · exact fun _ _ _ _ => rfl

theorem desk_deregister (n : Node) (s t : SessionId) : (n.deregister s).desk t = n.desk t := by
  obtain ⟨directory, left⟩ := n.deregister_eq s
  rw [left]
  exact (desk_outside rfl rfl t).trans (desk_apart n s t fun _ _ _ _ => rfl)

theorem register_ok {m : Message} (found : n.session? s = some ses)
    (registered : n.register s m = (.ok (), n')) : ∃ id directory link,
      ses.link.send { kind := .registered } = .ok link ∧
        n' = (n.listed s id directory).modify s fun ses => { ses with link } := by
  unfold register at registered
  split at registered
  · cases registered
  · rename_i id decoded
    simp only at registered
    split at registered
    · cases registered
    · rename_i directory free
      have found' : (n.listed s id directory).session? s = some _ := session?_modify found
      split at registered
      · cases registered
      · rename_i n'' sent
        cases registered
        change (n.listed s id directory).send s _ = _ at sent
        unfold Node.send Session.send at sent
        simp only [found'] at sent
        cases linked : ses.link.send { kind := .registered } with
        | error e =>
          rw [linked] at sent
          cases sent
        | ok link =>
          rw [linked] at sent
          cases sent
          refine ⟨id, directory, link, rfl, ?_⟩
          exact (modify_found found' fun ses => { ses with link := link }).symm

/-- What does not get registered changes no desk. -/
theorem desk_refused {m : Message} {e : SessionError} (refused : n.register s m = (.error e, n'))
    (t : SessionId) : n'.desk t = n.desk t := by
  have registering := registering_register n s m
  rw [refused] at registering
  cases registering with
  | refused => rfl
  | @unsent _ id directory _ _ given =>
    have left : n' = (n.listed s id directory).deregister s := given
    rw [left, desk_deregister, desk_listed]

/-! ## Executions that begin -/

theorem ownCalls_append (n : Node) (call : Call) (s : SessionId) :
    { n with calls := n.calls ++ [call] }.ownCalls s =
      n.ownCalls s ++ (call.origin.asked? s).toList := by
  unfold ownCalls
  rw [List.filterMap_append]
  cases asked : call.origin.asked? s <;> simp [asked]

theorem desk_began {c : Context} (m : Message) (origin : Origin) (found : n.session? t = some ses)
    (s : SessionId) : (n.began t ses c m origin).desk s =
      { n.desk s with
        calls := n.ownCalls s ++ (origin.asked? s).toList
        commands := (n.desk s).commands ++
          if t = s then [.next { message := m, forward := true }] else [] } := by
  have own : (n.began t ses c m origin).ownCalls s = n.ownCalls s ++ (origin.asked? s).toList :=
    ownCalls_append n ⟨t, ses.transactions.contexts.length, origin, n.deadline? t⟩ s
  by_cases same : t = s
  · subst same
    have found' : (n.began t ses c m origin).session? t = some _ := session?_modify found
    rw [desk_found found', desk_found found, own, if_pos rfl]
    rfl
  · have other : (n.began t ses c m origin).session? s = n.session? s :=
      (session?_modify_if ..).trans (if_neg same)
    rw [← own, if_neg same, List.append_nil]
    exact desk_of_session? other

theorem trail_began {origin : Origin} (apart : origin.asked? s = none)
    (found : n.session? t = some ses) (c : Context) (m : Message) :
    ∃ es, Desk.Trail (n.desk s) es ((n.began t ses c m origin).desk s) ∧
      ∀ e ∈ es, e = .ordered { message := m, forward := true } := by
  rw [desk_began m origin found s, apart, Option.toList_none, List.append_nil, ← calls_desk]
  exact (n.desk s).trail_ordered { message := m, forward := true } (t = s)

/-! ## Serving requests -/

/-- Seen from another session, serving a request begins an execution at most. -/
theorem trail_dealt_other {job : Job} {p : Option ParkedRead} (other : s ≠ t)
    (dealt : Dealt n s ses job p n') :
    ∃ es, Desk.Trail (n.desk t) es (n'.desk t) ∧ ∀ e ∈ es, e.Ensues := by
  cases dealt with
  | dropped => exact ⟨[], .nil _, by simp⟩
  | answered free inside course =>
    rw [desk_modify_other other, desk_inside inside]
    exact ⟨[], .nil _, by simp⟩
  | @stored _ _ _ _ l stores =>
    have inside : Inside n { n with ledger := l } := .outside n l n.cursorCount
    rw [desk_modify_other other, desk_inside inside]
    exact ⟨[], .nil _, by simp⟩
  | parked =>
    rw [desk_modify_other other]
    exact ⟨[], .nil _, by simp⟩
  | @calling u ses' c c' m calls kind free found on course =>
    have apart : (Origin.request s c job.message).asked? t = none := if_neg other
    obtain ⟨es, trail, orders⟩ := trail_began apart found c' m
    rw [desk_modify_other other] at trail
    exact ⟨es, trail, fun e mem => by rw [orders e mem]; exact .inl kind⟩

theorem desk_withPool (g : WorkerPool Job → WorkerPool Job) (there : (n.session? s).isSome = true) :
    (n.modify s fun ses => { ses with pool := g ses.pool }).desk s =
      { n.desk s with pool := g (n.desk s).pool } := by
  obtain ⟨ses, found⟩ := Option.isSome_iff_exists.1 there
  rw [desk_modify found, desk_found found]
  rfl

section Served

variable {job : Job} {p : WorkerPool Job} {l : List Message} {g : WorkerPool Job → WorkerPool Job}

/-- A request is answered, which leaves the workers in the state that they are given. -/
theorem step_reply {result : Except SessionError Bytes} (found : n.session? s = some ses)
    (free : job.key ∉ ses.transactions.markers) (inside : Inside n n')
    (consumes : { n.desk s with pool := p, dials := l }.Consumes job (g ses.pool)
      (n.desk s).dials) :
    { n.desk s with pool := p, dials := l }.Step (.answered job (reply job.message result))
      (((n'.modify s (·.reply job.kind (reply job.message result))).modify s fun ses =>
        { ses with pool := g ses.pool }).desk s) := by
  obtain ⟨ses', found', inside'⟩ := inside.session found
  have pool : (ses'.reply job.kind (reply job.message result)).pool = ses.pool := by
    rw [(ses'.talks_reply ..).pool, inside'.rest]
  have comes := ses'.comes_reply (n'.ownCalls s) job.kind (reply job.message result)
  have found'' := session?_modify (f := (·.reply job.kind (reply job.message result))) found'
  have last : ((n'.modify s (·.reply job.kind (reply job.message result))).modify s fun ses =>
      { ses with pool := g ses.pool }).desk s =
        { (ses'.reply job.kind (reply job.message result)).desk (n'.ownCalls s) with
          pool := g ses.pool } := by
    rw [desk_modify found'', ← pool]
    rfl
  rw [← desk_found found', desk_inside inside] at comes
  rw [last]
  have free' : job.key ∉ { n.desk s with pool := p, dials := l }.markers := by
    rw [desk_found found]
    exact free
  have step := Desk.step_answered result consumes free'
  have comes' := comes.withPool (g ses.pool)
  rw [Desk.reply_withPool (n.desk s) (n.desk s).pool] at comes'
  exact step.comes comes'

/-- A request that is served is dropped, or answered, or waits for a call. -/
theorem trail_dealt (found : n.session? s = some ses) (dealt : Dealt n s ses job none n')
    (consumes : { n.desk s with pool := p, dials := l }.Consumes job (g ses.pool)
      (n.desk s).dials) :
    ∃ es, Desk.Trail { n.desk s with pool := p, dials := l } es
        ((n'.modify s fun ses => { ses with pool := g ses.pool }).desk s) ∧
      ∀ e ∈ es, e.Serves job := by
  cases dealt with
  | dropped held =>
    refine ⟨[.dropped job], .single ?_, by simp [Minute.Serves]⟩
    rw [desk_modify found]
    rw [desk_found found] at consumes ⊢
    exact Desk.step_dropped consumes held
  | answered free inside course =>
    exact ⟨[_], .single (step_reply found free inside consumes), by simp [Minute.Serves]⟩
  | @stored _ _ _ _ l stores =>
    have inside : Inside n { n with ledger := l } := .outside n l n.cursorCount
    exact ⟨[_], .single (step_reply found stores.free inside consumes), by simp [Minute.Serves]⟩
  | @calling t ses' c c' m calls kind free found' on course =>
    have claimed := desk_modify (f := (·.claim job.message.key)) found
    have asked : (Origin.request s c job.message).asked? s = some job := by
      rw [show job = ⟨.invoke, job.message⟩ from calls ▸ rfl]
      exact if_pos rfl
    have began := desk_began (c := c') m (.request s c job.message) found' s
    rw [claimed, asked] at began
    have there : (((n.modify s (·.claim job.message.key)).began t ses' c' m
        (.request s c job.message)).session? s).isSome = true := by
      show (((n.modify s _).modify t _).session? s).isSome = true
      rw [session?_modify_if]
      split <;> simp [session?_modify_if, found]
    rw [desk_withPool g there, began]
    rw [desk_found found] at consumes ⊢
    have step := Desk.step_calls consumes free
    obtain ⟨es, trail, orders⟩ := Desk.trail_ordered _ { message := m, forward := true } (t = s)
    refine ⟨_, .cons step trail, fun e mem => ?_⟩
    rcases List.mem_cons.1 mem with rfl | mem
    · exact .inr (.inr (.inl rfl))
    · rw [orders e mem]
      exact .inr (.inr (.inr (.inl kind)))

end Served

/-! ## Showing a message to a lifecycle -/

def StaffedAt (n : Node) (s : SessionId) : Prop := (n.desk s).goesOn = true → (n.desk s).Staffed

/-- A request that a ready session is shown is queued for the workers, if it is no call. -/
theorem comes_submit {job : Job} (found : n.session? s = some ses) (staffed : n.StaffedAt s)
    (other : job.kind ≠ .invoke) : ((n.desk s).ask job).Comes ((n.submit s job).2.desk s) := by
  simp only [submit, found, Session.submit, WorkerPool.submit, Desk.ask, if_neg other]
  cases alive : ses.pool.isAlive with
  | true =>
    simp only [if_true]
    rw [desk_modify found, desk_found found]
    exact .inl rfl
  | false =>
    simp only [Bool.false_eq_true, if_false]
    -- Workers that are in order go on.
    have ended : (n.desk s).goesOn = false := by
      refine Bool.eq_false_iff.2 fun goesOn => ?_
      have alive' := (staffed goesOn).isAlive
      rw [desk_found found] at alive'
      exact Bool.false_ne_true (alive.symm.trans alive')
    have isOpen : (n.desk s).isOpen = false := by
      rw [desk_found found] at ended ⊢
      have closed : ses.link.outbox.closed = true := Bool.not_eq_eq_eq_not.1 ended
      simp [Session.desk, Session.isOpen, closed]
    exact .inr ⟨isOpen, fun goesOn => absurd goesOn (ended ▸ Bool.false_ne_true), rfl, rfl, rfl⟩

theorem desk_submit_other {job : Job} (other : s ≠ t) : (n.submit s job).2.desk t = n.desk t := by
  unfold submit
  split
  · rfl
  · split
    · rfl
    · exact desk_modify_other other

theorem desk_setPhase {phase : Phase} (h : (phase == .ready) = (n.desk s).isReady) :
    (n.setPhase s phase).desk s = n.desk s := by
  refine desk_apart n s s fun _ ses found calls => ?_
  rw [desk_found found] at h
  unfold Session.desk
  rw [h]
  rfl

theorem isReady_desk (found : n.session? s = some ses) :
    (n.desk s).isReady = (ses.phase == .ready) := by
  rw [desk_found found]
  rfl

/-- A contract is told that the node is ready, unless somebody else waits to be told. -/
theorem trail_announce (n : Node) (s : SessionId) :
    ∃ es, Desk.Trail (n.desk s) es ((n.modify s Session.announce).desk s) ∧ ∀ e ∈ es, e.Ensues := by
  cases found : n.session? s with
  | none =>
    rw [desk_apart n s s fun _ ses found' => by rw [found] at found'; cases found']
    exact ⟨[], .nil _, by simp⟩
  | some ses =>
    rw [desk_modify found, desk_found found]
    unfold Session.announce
    split
    · exact ⟨[], .nil _, by simp⟩
    · have comes :=
        ses.comes_enqueue (n.ownCalls s) { message := { kind := .ready }, forward := true }
      exact ⟨[_], .single ((Desk.step_ordered ..).comes comes), by simp [Minute.Ensues]⟩

/-- A contract that registers is told so, and that the node is ready. -/
theorem trail_register {m : Message} (found : n.session? s = some ses)
    (created : ses.phase = .created)
    (registered : n.register s m = (.ok (), n')) :
    ∃ es, Desk.Trail (n.desk s) es
        (((n'.modify s Session.announce).setPhase s .established).desk s) ∧ ∀ e ∈ es, e.Ensues := by
  obtain ⟨id, directory, link, sent, rfl⟩ := register_ok found registered
  have outbox := Link.eq_of_send sent
  rw [setPhase_announce]
  have desk : (((n.listed s id directory).modify s fun ses => { ses with link }).setPhase s
      .established).desk s = { n.desk s with
        outbox := (n.desk s).outbox ++ [{ kind := .registered }] } := by
    have found' : (n.listed s id directory).session? s = some _ := session?_modify found
    rw [desk_setPhase]
    · rw [desk_modify found', desk_found found, outbox]
      rfl
    · rw [desk_modify found']
      simp [Session.desk, created]
  have step := Desk.step_said (n.desk s) { kind := .registered }
  rw [← desk] at step
  obtain ⟨es, trail, orders⟩ := trail_announce (((n.listed s id directory).modify s fun ses =>
    { ses with link }).setPhase s .established) s
  refine ⟨_, .cons step trail, fun e mem => ?_⟩
  rcases List.mem_cons.1 mem with rfl | mem
  · rfl
  · exact orders e mem

/-- A message that ends a transaction is no request. -/
theorem job?_of_bypasses {m : Message} {phase : Phase} (h : bypasses phase m.kind = true) :
    m.job? = none := by
  simp only [bypasses, Bool.and_eq_true, Bool.or_eq_true, beq_iff_eq] at h
  rcases h.2 with kind | kind
  · rw [Message.job?, kind]
    rfl
  · rw [Message.job?, kind]
    rfl

theorem desk_dial (found : n.session? s = some ses) (m : Message) :
    (n.modify s (·.dial m)).desk s = (n.desk s).ask ⟨.invoke, m⟩ := by
  rw [desk_modify found, desk_found found]
  rfl

theorem trail_handle (n : Node) (s : SessionId) (m : Message) (staffed : n.StaffedAt s) :
    ∃ es, Desk.Trail ((n.desk s).present m) es ((n.handle s m).desk s) ∧ ∀ e ∈ es, e.Ensues := by
  have early {ses : Session} (found : n.session? s = some ses) (other : ses.phase ≠ .ready) :
      (n.desk s).present m = n.desk s :=
    Desk.present_early ((isReady_desk found).trans (beq_false_of_ne other)) m
  have handled := handled_handle n s m
  generalize n.handle s m = n' at handled ⊢
  cases handled with
  | missing none =>
    have early : (n.desk s).isReady = false := by simp only [desk, none]; rfl
    rw [Desk.present_early early]
    exact ⟨[], .nil _, by simp⟩
  | passes found passes =>
    rw [Desk.present_none _ (job?_of_bypasses passes), desk_apart n s s fun _ ses _ calls =>
      ses.desk_notify calls m]
    exact ⟨[], .nil _, by simp⟩
  | registers found created registered =>
    rw [early found (by simp [created])]
    exact trail_register found created registered
  | @refused ses n' e found created refused =>
    have unready : (n.desk s).isReady = false := by rw [isReady_desk found, created]; rfl
    rw [early found (by simp [created]), ← desk_refused refused s]
    rw [desk_setPhase (by rw [desk_refused refused, unready]; rfl)]
    exact ⟨[], .nil _, by simp⟩
  | @readies ses found established =>
    rw [early found (by simp [established])]
    refine ⟨[.aside], .single ?_, by simp [Minute.Ensues]⟩
    unfold setPhase
    rw [modify_modify, desk_modify found, desk_found found]
    have told := ses.desk_notify (n.ownCalls s) m
    have ready : { ses.notify m with phase := .ready }.desk (n.ownCalls s) =
        { ses.desk (n.ownCalls s) with isReady := true } := by
      rw [← told]
      rfl
    show Desk.Step _ _ ({ ses.notify m with phase := .ready }.desk (n.ownCalls s))
    rw [ready]
    exact Desk.step_aside _
  | @calls ses found ready asks =>
    rw [Desk.present_job ((isReady_desk found).trans (by simp [ready])) asks]
    exact ⟨[], desk_dial found m ▸ .nil _, by simp⟩
  | @submits ses kind found ready asks other =>
    rw [Desk.present_job ((isReady_desk found).trans (by simp [ready])) asks]
    have comes : ((n.desk s).ask ⟨kind, m⟩).Comes ((n.submit s ⟨kind, m⟩).2.desk s) :=
      comes_submit found staffed other
    obtain ⟨es, trail, asides⟩ := comes.trail
    exact ⟨es, trail, fun e mem => by rw [asides e mem]; trivial⟩
  | @ignored ses found no =>
    by_cases ready : ses.phase = .ready
    · rw [Desk.present_none _ (no ready)]
      exact ⟨[], .nil _, by simp⟩
    · rw [early found ready]
      exact ⟨[], .nil _, by simp⟩

/-- Showing a message to the lifecycle of another session changes nothing on a desk. -/
theorem desk_handle_other (n : Node) (m : Message) (other : s ≠ t) :
    (n.handle s m).desk t = n.desk t := by
  have handled := handled_handle n s m
  generalize n.handle s m = n' at handled ⊢
  cases handled with
  | missing | ignored => rfl
  | passes | calls => exact desk_modify_other other
  | @registers ses n' found created registered =>
    obtain ⟨id, directory, link, sent, rfl⟩ := register_ok found registered
    unfold setPhase
    rw [desk_modify_other other, desk_modify_other other, desk_modify_other other, desk_listed]
  | refused found created refused =>
    rw [setPhase, desk_modify_other other, desk_refused refused]
  | readies => rw [setPhase, desk_modify_other other, desk_modify_other other]
  | submits => exact desk_submit_other other

/-! ## The end of a session -/

/-- A session that has nothing more to send shuts its desk. -/
theorem shut_modify {f : Session → Session} (found : n.session? s = some ses)
    (closed : (f ses).link.outbox.closed = true)
    (markers : (f ses).transactions.markers = ses.transactions.markers)
    (parked : (f ses).parked = ses.parked) : (n.desk s).Shut ((n.modify s f).desk s) := by
  rw [desk_modify found, desk_found found]
  refine ⟨?_, fun goesOn => ?_, markers, parked, rfl⟩
  · simp [Session.desk, Session.isOpen, closed]
  · simp [Session.desk, closed] at goesOn

theorem shut_closed (found : n.session? s = some ses) : (n.desk s).Shut ((n.closed s).desk s) := by
  have found' := session?_deregister found
  rw [← desk_deregister n s s]
  exact shut_modify found' rfl rfl rfl

theorem desk_farewelled (n : Node) (s t : SessionId) : (n.farewelled s).desk t = n.desk t := by
  refine desk_apart n s t fun _ ses _ calls => ?_
  rw [Session.desk_notifyAll, Session.desk_notify]

theorem shut_endSession (found : n.session? s = some ses) :
    (n.desk s).Shut ((n.endSession s).desk s) := by
  rw [endSession_eq found]
  split
  · exact shut_closed found
  · rw [← desk_farewelled n s s]
    exact shut_closed (session?_modify found)

theorem desk_endSession_other (n : Node) (other : s ≠ t) : (n.endSession s).desk t = n.desk t := by
  have closed (n : Node) : (n.closed s).desk t = n.desk t := by
    rw [Node.closed, desk_modify_other other, desk_deregister]
  cases found : n.session? s with
  | none => simp only [endSession, found]
  | some ses =>
    rw [endSession_eq found]
    split
    · exact closed n
    · rw [closed, desk_farewelled]

theorem shut_stopInbound (found : n.session? s = some ses) :
    (n.desk s).Shut ((n.stopInbound s).desk s) := by
  have halted := desk_apart n s s (f := fun ses => { ses with inbound := .stopped })
    fun _ _ _ _ => rfl
  rw [← halted]
  exact shut_endSession (session?_modify found)

theorem desk_stopInbound_other (n : Node) (other : s ≠ t) :
    (n.stopInbound s).desk t = n.desk t := by
  rw [stopInbound, desk_endSession_other _ other, desk_modify_other other]

theorem shut_stopOutbound (found : n.session? s = some ses) :
    (n.desk s).Shut ((n.stopOutbound s).desk s) := by
  have shut := shut_endSession found
  obtain ⟨ses', found', _⟩ := session?_endSession found
  refine shut.trans ?_
  unfold stopOutbound
  rw [desk_modify found', desk_found found']
  refine ⟨?_, fun goesOn => ⟨goesOn, rfl, rfl⟩, rfl, rfl, rfl⟩
  simp [Session.desk, Session.isOpen]

theorem desk_stopOutbound_other (n : Node) (other : s ≠ t) :
    (n.stopOutbound s).desk t = n.desk t := by
  rw [stopOutbound, desk_modify_other other, desk_endSession_other n other]

end Node

end ContractNode
