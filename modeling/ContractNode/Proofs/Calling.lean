import ContractNode.Proofs.Answers

/-!
# Calls from contract to contract

A contract asks its session to call another one. The session gives the request a thread of its own,
and when that takes it up, the directory tells which session serves the other contract, if one does;
the call begins an execution there, or it is refused.

* `asked_of_dialled` : a thread has been given a request that its session was shown when it was ready;
* `Node.Sends` : the contract of one session is to be sent a message, and no other contract
  anything;
* `Node.Placed`, `Node.placed?` : a call that a thread is to take up and that nothing stands against,
  as far as the caller is concerned;
* `Node.Begins`, `dial_begins`, `dial_refused` : the execution that such a call begins, and the answer
  to a call that is refused.
-/

namespace ContractNode

theorem Desk.due_reply (d : Desk) (kind : RequestKind) (r : Message) :
    (d.reply kind r).due = d.due + {r} := by
  unfold Desk.reply Desk.due
  split
  · simp only [← Multiset.coe_add, Multiset.coe_singleton]
    ac_rfl
  · simp only [List.filterMap_append, ← Multiset.coe_add]
    exact (add_assoc ..).symm

namespace Node

variable {n n' n₁ : Node} {s t u : SessionId} {ses : Session} {m : Message}

/-! ## What contracts are to be sent -/

/-- The contract of a session is to be sent a message, and no other contract is to be sent anything,
as far as their sessions are connected. -/
def Sends (n : Node) (t : SessionId) (m : Message) (n' : Node) : Prop :=
  ∀ u, (n'.desk u).isOpen = true → (n'.desk u).due = (n.desk u).due + if u = t then {m} else 0

theorem Sends.of_due (h : n₁.Sends t m n') (same : ∀ u, (n₁.desk u).due = (n.desk u).due) :
    n.Sends t m n' := fun u isOpen => same u ▸ h u isOpen

theorem due_apart (n : Node) (s u : SessionId) {f : Session → Session}
    (outbox : ∀ ses, (f ses).link.outbox = ses.link.outbox)
    (commands : ∀ ses, (f ses).commands = ses.commands) :
    ((n.modify s f).desk u).due = (n.desk u).due := by
  by_cases same : s = u
  · subst same
    cases found : n.session? s with
    | none => rw [desk_apart n s s fun _ ses found' => by rw [found] at found'; cases found']
    | some ses =>
      rw [desk_modify found, desk_found found]
      simp only [Desk.due, Session.desk, outbox, commands]
  · rw [desk_modify_other same]

theorem sends_began {c : Context} (m : Message) (origin : Origin)
    (found : n.session? t = some ses) : n.Sends t m (n.began t ses c m origin) := by
  intro u _
  rw [desk_began m origin found u]
  unfold Desk.due
  by_cases same : t = u
  · simp only [same, if_true, List.filterMap_append, ← Multiset.coe_add]
    exact (add_assoc ..).symm
  · simp only [if_neg same, if_neg (Ne.symm same), List.append_nil, add_zero]

theorem sends_answer (n : Node) (s : SessionId) (job : Job) (result : Except SessionError Bytes) :
    n.Sends s (reply job.message result) (n.answer s job result) := by
  intro u isOpen
  by_cases same : s = u
  · subst same
    rcases n.comes_answer s job result with eq | shut
    · rw [eq, Desk.due_reply, if_pos rfl]
      rfl
    · rw [shut.isOpen] at isOpen
      cases isOpen
  · rw [answer_eq, desk_modify_other same, if_neg (Ne.symm same), add_zero]

/-! ## Calls -/

/-- A thread has been given a request that its session was shown when it was ready. -/
theorem asked_of_dialled {P : Act → Prop} {channels historyless system : List String} {drill : Drill}
    (run : Moves P (withChannels channels historyless system drill) n)
    (found : n.session? s = some ses) (dialled : m ∈ ses.dials) :
    Asked P s ⟨.invoke, m⟩ (withChannels channels historyless system drill) n := by
  refine asked_of_queued (fun _ _ there => ?_) run ⟨ses, found, .inr ⟨rfl, dialled⟩⟩
  obtain ⟨_, there, _⟩ := there
  cases there

/-- A thread is to take a call request up. The transaction has a context and no request under way, the
request can be read, the call is allowed, the caller has the rights that it is to hand on, and it is
up to the sessions of the node to run it. -/
structure Placed (n : Node) (s : SessionId) (m : Message) where
  ses : Session
  /-- The number of the caller's context. -/
  no : Nat
  /-- The caller's context. -/
  ctx : Context
  spec : CallSpec
  rights : Simulator × Option Historian
  found : n.session? s = some ses
  dialled : m ∈ ses.dials
  free : m.key ∉ ses.transactions.markers
  registered : ses.transactions.find? m.channel m.tx = some no
  known : ses.transactions.context? no = some ctx
  decoded : CallSpec.codec.decode m.payload = .ok spec
  allowed : ses.access.check ctx.signedProposal ctx.proposal (spec.target ctx.channel) = .ok ()
  righted : n.callRights ctx (spec.target ctx.channel) = .ok rights
  byNode : ses.launcher = .directory

namespace Placed

def target (call : n.Placed s m) : ContractInstance := call.spec.target call.ctx.channel

/-- What the called contract is sent: the arguments and, if there is a proposal, the signed one. -/
def message (call : n.Placed s m) : Message where
  kind := .transaction
  channel := call.target.channel
  tx := call.ctx.tx
  payload := CallInput.codec.encode call.spec.input
  proposal := if call.ctx.proposal.isSome then call.ctx.signedProposal else none

def context (call : n.Placed s m) : Context where
  channel := call.target.channel
  tx := call.ctx.tx
  simulator := some call.rights.1
  historian := call.rights.2
  signedProposal := call.ctx.signedProposal
  proposal := call.ctx.proposal

def origin (call : n.Placed s m) : Origin := .request s call.no m

theorem called (call : n.Placed s m) (attested : call.ctx.Attested) :
    called (invocation call.ctx call.spec call.rights) = .ok (call.message, call.context) := by
  unfold Context.Attested at attested
  unfold Node.called message context target
  simp only [invocation]
  generalize call.ctx.proposal = proposal at attested ⊢
  generalize call.ctx.signedProposal = signedProposal at attested ⊢
  cases proposal with
  | none => rfl
  | some p =>
    cases signedProposal with
    | none => cases attested rfl
    | some sp => rfl

end Placed

/-- The call that a thread is to take up, if nothing stands against it. -/
def placed? (n : Node) (s : SessionId) (m : Message) : Option (n.Placed s m) :=
  match found : n.session? s with
  | none => none
  | some ses =>
    match registered : ses.transactions.find? m.channel m.tx with
    | none => none
    | some no =>
      match known : ses.transactions.context? no, decoded : CallSpec.codec.decode m.payload with
      | some ctx, .ok spec =>
        match righted : n.callRights ctx (spec.target ctx.channel),
          allowed : ses.access.check ctx.signedProposal ctx.proposal (spec.target ctx.channel) with
        | .ok rights, .ok () =>
          if fits : m ∈ ses.dials ∧ m.key ∉ ses.transactions.markers ∧ ses.launcher = .directory then
            some {
              ses, no, ctx, spec, rights, found, registered, known, decoded, righted, allowed
              dialled := fits.1, free := fits.2.1, byNode := fits.2.2 }
          else none
        | _, _ => none
      | _, _ => none

/-- The node in which a thread has taken a call request up, and claimed its marker. -/
def takenUp (n : Node) (s : SessionId) (m : Message) : Node :=
  n.modify s fun ses => (ses.pickUp m).claim m.key

/-- A thread whose request finds the marker free claims it, and carries the request out. -/
theorem dial_free (found : n.session? s = some ses) (free : m.key ∉ ses.transactions.markers) :
    n.dial s m =
      match (n.takenUp s m).attempt s ((ses.pickUp m).claim m.key)
        ⟨.invoke, m⟩ with
      | (.answered result, n') => n'.answer s ⟨.invoke, m⟩ result
      | (.parked _, n') | (.calling, n') => n' := by
  have found' := session?_modify (f := (·.pickUp m)) found
  have free' : (⟨.invoke, m⟩ : Job).message.key ∉
      (ses.pickUp m).transactions.markers := free
  rw [dial, serve_free found' free', modify_modify]
  show Prod.snd (match (n.takenUp s m).attempt s _ ⟨.invoke, m⟩ with
    | (.answered result, n') => (none, n'.answer s ⟨.invoke, m⟩ result)
    | (.parked p, n') => (some p, n')
    | (.calling, n') => (none, n')) = _
  generalize (n.takenUp s m).attempt s _ ⟨.invoke, m⟩ = r
  obtain ⟨outcome, n'⟩ := r
  cases outcome with
  | answered | parked | calling => rfl

/-- A thread runs the call that it takes up, or answers that it cannot be run. -/
theorem dial_placed (call : n.Placed s m) : n.dial s m =
    match (n.takenUp s m).callSession (invocation call.ctx call.spec call.rights) call.origin with
    | (.answered result, n') => n'.answer s ⟨.invoke, m⟩ result
    | (.parked _, n') | (.calling, n') => n' := by
  have read : Request.decode .invoke m.payload = .ok (.invoke call.spec) := by
    simp only [Request.decode, call.decoded]
    rfl
  have registered : ((call.ses.pickUp m).claim m.key).transactions.find?
      m.channel m.tx = some call.no := call.registered
  have known : ((call.ses.pickUp m).claim m.key).transactions.context?
      call.no = some call.ctx := call.known
  have allowed : ((call.ses.pickUp m).claim m.key).access.check
      call.ctx.signedProposal call.ctx.proposal (call.spec.target call.ctx.channel) = .ok () :=
    call.allowed
  have righted : (n.takenUp s m).callRights call.ctx (call.spec.target call.ctx.channel) =
      .ok call.rights := call.righted
  have byNode : ((call.ses.pickUp m).claim m.key).launcher =
      .directory := call.byNode
  have attempted : (n.takenUp s m).attempt s
      ((call.ses.pickUp m).claim m.key) ⟨.invoke, m⟩ =
      (n.takenUp s m).callSession (invocation call.ctx call.spec call.rights) call.origin := by
    simp only [attempt, read, registered, known, perform, invoke, allowed, righted, byNode]
    rfl
  rw [dial_free call.found call.free, attempted]

theorem callSession_refused {i : Invocation} {e : LaunchError} (origin : Origin)
    (refused : n.directory.resolve i.target = .error e) :
    n.callSession i origin = (.answered (.error (.launch e)), n) := by
  simp only [callSession, refused]
  split
  · rename_i launched
    split at launched
    · cases launched
    · cases launched
      rfl
  · rfl

theorem callSession_resolved {i : Invocation} (origin : Origin)
    (resolved : n.directory.resolve i.target = .ok t) :
    n.callSession i origin =
      match n.beginCall t i origin with
      | (.error e, n') => (.answered (.error (.launch (.executionFailed e.message))), n')
      | (.ok (), n') => (.calling, n') := by
  cases begun : n.beginCall t i origin with
  | mk outcome n' =>
    cases outcome with
    | error | ok => simp only [callSession, resolved, Except.map, ite_self, begun]

/-! ## What a call comes to -/

/-- A context of the given rights is registered with a session under the given number. -/
def Houses (n : Node) (s : SessionId) (no : Nat) (c : Context) : Prop :=
  ∃ ses ctx, n.session? s = some ses ∧ ses.transactions.find? c.channel c.tx = some no ∧
    ses.transactions.context? no = some ctx ∧ ctx.badge = c.badge

/-- An execution `w` begins: it waits, a context of its own is registered for it, and its contract
is to be sent a message. -/
structure Begins (n : Node) (w : Call) (c : Context) (m : Message) (n' : Node) : Prop where
  calls : n'.calls = n.calls ++ [w]
  context : n'.Houses w.session w.context c
  sends : n.Sends w.session m n'

theorem houses_began (n : Node) {c : Context} (m : Message) (origin : Origin)
    (found : n.session? t = some ses) :
    (n.began t ses c m origin).Houses t ses.transactions.contexts.length c := by
  refine ⟨_, _, session?_modify found, ?_, ses.transactions.context?_enroll_self c, rfl⟩
  show (ses.transactions.index.insert c.key _).get? c.key = _
  rw [KeyMap.get?_insert, if_pos rfl]

theorem due_takenUp (n : Node) (s : SessionId) (m : Message) (u : SessionId) :
    ((n.takenUp s m).desk u).due = (n.desk u).due :=
  due_apart n s u (fun _ => rfl) fun _ => rfl

/-- A call to a contract that no session serves is answered with that, and nothing else is to be
sent. -/
theorem dial_refused {e : LaunchError} (call : n.Placed s m)
    (refused : n.directory.resolve call.target = .error e) :
    n.dial s m = (n.takenUp s m).answer s ⟨.invoke, m⟩ (.error (.launch e)) := by
  have refused' : (n.takenUp s m).directory.resolve
      (invocation call.ctx call.spec call.rights).target = .error e := refused
  rw [dial_placed call, callSession_refused call.origin refused']

theorem sends_refused {e : LaunchError} (call : n.Placed s m)
    (refused : n.directory.resolve call.target = .error e) :
    (n.dial s m).calls = n.calls ∧ n.Sends s (reply m (.error (.launch e))) (n.dial s m) := by
  rw [dial_refused call refused]
  exact ⟨rfl, (sends_answer _ s ⟨.invoke, m⟩ _).of_due (n.due_takenUp s m)⟩

/-- A call to a contract that a session serves begins an execution there, if that session goes on
and the transaction has no context there yet. -/
theorem dial_begins (call : n.Placed s m) (attested : call.ctx.Attested)
    (resolved : n.directory.resolve call.target = .ok t)
    (found : (n.takenUp s m).session? t = some ses)
    (fresh : ses.transactions.index.get? call.context.key = none) (on : ses.outbound ≠ .stopped) :
    n.dial s m = (n.takenUp s m).began t ses call.context call.message call.origin := by
  have begun := begun_begin (n.takenUp s m) t call.context call.message call.origin
  have begins : (n.takenUp s m).begin t call.context call.message call.origin =
      (.ok (), (n.takenUp s m).began t ses call.context call.message call.origin) := by
    generalize (n.takenUp s m).begin _ _ _ _ = r at begun ⊢
    obtain ⟨outcome, n'⟩ := r
    cases begun with
    | missing none =>
      rw [none] at found
      cases found
    | duplicate found' taken =>
      cases Option.some.inj (found.symm.trans found')
      rw [KeyMap.contains_eq_false_iff.2 fresh] at taken
      cases taken
    | stopped found' _ off =>
      cases Option.some.inj (found.symm.trans found')
      exact absurd off on
    | waits found' =>
      cases Option.some.inj (found.symm.trans found')
      rfl
  have resolved' : (n.takenUp s m).directory.resolve
      (invocation call.ctx call.spec call.rights).target = .ok t := resolved
  rw [dial_placed call, callSession_resolved call.origin resolved']
  simp only [beginCall, call.called attested, begins]

theorem begins_of_resolved (call : n.Placed s m) (attested : call.ctx.Attested)
    (resolved : n.directory.resolve call.target = .ok t)
    (found : n.session? t = some ses) (on : ses.outbound ≠ .stopped)
    (fresh : ses.transactions.find? call.target.channel call.ctx.tx = none) :
    ∃ w : Call, w.session = t ∧ w.origin = call.origin ∧
      n.Begins w call.context call.message (n.dial s m) := by
  -- The session that is to run the call is as before, or the caller with its marker claimed.
  obtain ⟨ses₁, found₁, index, outbound⟩ : ∃ ses₁, (n.takenUp s m).session? t = some ses₁ ∧
      ses₁.transactions.index = ses.transactions.index ∧ ses₁.outbound = ses.outbound := by
    rw [takenUp, session?_modify_if, found]
    split
    · exact ⟨_, rfl, rfl, rfl⟩
    · exact ⟨ses, rfl, rfl, rfl⟩
  have dialled := dial_begins call attested resolved found₁ (by rw [index]; exact fresh)
    (by rw [outbound]; exact on)
  rw [dialled]
  exact ⟨_, rfl, rfl, rfl, houses_began _ _ _ found₁,
    (sends_began _ _ found₁).of_due (n.due_takenUp s m)⟩

/-- The only session on which a call can begin an execution is the one that serves its target. -/
theorem resolved_of_calls (call : n.Placed s m) {w : Call}
    (calls : (n.dial s m).calls = n.calls ++ [w]) :
    n.directory.resolve call.target = .ok w.session := by
  have still {n' : Node} (dialled : n.dial s m = n') (same : n'.calls = n.calls) : False := by
    rw [dialled, same] at calls
    simp at calls
  cases resolved : n.directory.resolve call.target with
  | error e => exact (still (dial_refused call resolved) rfl).elim
  | ok t =>
    have resolved' : (n.takenUp s m).directory.resolve
        (invocation call.ctx call.spec call.rights).target = .ok t := resolved
    have dialled := dial_placed call
    rw [callSession_resolved call.origin resolved'] at dialled
    cases begun : (n.takenUp s m).beginCall t
      (invocation call.ctx call.spec call.rights) call.origin with
    | mk outcome n₁ =>
      rw [begun] at dialled
      rcases beginCall_cases begun with ⟨e, rfl, rfl⟩ | ⟨m', c', _, comes⟩
      · exact (still dialled rfl).elim
      · cases comes with
        | missing | duplicate | stopped => exact (still dialled rfl).elim
        | waits found' =>
          have began := congrArg Node.calls dialled
          rw [calls] at began
          obtain ⟨_, same⟩ := List.append_inj' began rfl
          cases same
          rfl

end Node

end ContractNode
