import ContractNode.Proofs.Forwarded
import ContractNode.Proofs.Refusal
import ContractNode.Proofs.Relayed
import ContractNode.Proofs.Uncalled

/-!
# Calls that fail

A contract asks its session for a call to another contract. The call may fail at one of several
points, one after the other, before anything is queued for the contract that is to be called.

* `Node.Fails` : the points at which a call fails, and the error for each;
* `dial_of_fails` : all that comes of it is that one error is queued for the caller's contract;
* `Node.Beyond`, `sends_of_fails` : nothing else changes;
* `Node.Forwards` : the error ends the execution that waits under the same key;
* `Node.Heard`, `heard_of_notify` : on a node at rest it does so at once, and if the execution was a
  call as well, its caller is answered;
* `fails_or_begins` : there is no other way for a call to fail;
* `Node.Failed`, `failed_of_fails` : what a call that fails comes to.
-/

namespace ContractNode

/-- A call can be read, and its transaction has a context. -/
structure Session.Puts (ses : Session) (m : Message) (spec : CallSpec) (ctx : Context) : Prop where
  decoded : CallSpec.codec.decode m.payload = .ok spec
  registered : ses.transactions.registered? m.key = some ctx

def Session.freed (ses : Session) (a : Message) : Session :=
  { ses with transactions := ses.transactions.unmark a.channel a.tx }

/-- A request `a` for a call has been answered with `r`: its marker is free again, and the contract
is sent the answer, or will be once the outbound loop has been started. -/
def Session.repay (ses : Session) (a r : Message) : Session :=
  if ses.outbound = .running then (ses.freed a).sendAnyway r else ((ses.freed a).trigger r true).2

/-- Both loops of a session run, if it was started and has not ended. -/
def Session.Busy (ses : Session) : Prop :=
  ses.outbound ≠ .idle → ses.phase ≠ .ended → ses.inbound = .running ∧ ses.outbound = .running

theorem Session.lasting_busy : Session.Lasting Session.Busy where
  abides same busy := by
    unfold Busy at busy ⊢
    rwa [same.inbound, same.outbound, same.phase]
  advance before _ busy started _ := busy started before
  start _ _ _ _ := ⟨rfl, rfl⟩
  stopInbound _ _ ended _ _ _ live := absurd ended live
  stopOutbound _ _ ended _ _ live := absurd ended live

namespace Node

/-- A thread is to take a call request up, and no request of the transaction is under way. -/
structure Invoked (n : Node) (s : SessionId) (ses : Session) (m : Message) : Prop where
  found : n.session? s = some ses
  dialled : m ∈ ses.dials
  free : m.key ∉ ses.transactions.markers

/-- A call that a thread is to take up fails. The points at which it may are looked at in this
order. -/
inductive Fails (n : Node) (s : SessionId) (ses : Session) (m : Message) : SessionError → Prop
  /-- It cannot be read. -/
  | undecodable {e : CodecError} (undecoded : CallSpec.codec.decode m.payload = .error e) :
      Fails n s ses m (.codec e)
  | contextless {spec : CallSpec} (decoded : CallSpec.codec.decode m.payload = .ok spec)
      (unknown : ses.transactions.registered? m.key = none) :
      Fails n s ses m (.missingContext m.channel m.tx)
  | denied {spec : CallSpec} {ctx : Context} {e : AccessError} (puts : ses.Puts m spec ctx)
      (denied : ses.access.check ctx.signedProposal ctx.proposal (spec.target ctx.channel) =
        .error e) : Fails n s ses m (.access e)
  /-- The channel of the called contract is another one, and has no ledger. -/
  | ledgerless {spec : CallSpec} {ctx : Context} {e : LedgerError} (puts : ses.Puts m spec ctx)
      (allowed : ses.access.check ctx.signedProposal ctx.proposal (spec.target ctx.channel) =
        .ok ())
      (other : (spec.target ctx.channel).channel ≠ ctx.channel)
      (missing : n.ledger.simulator (spec.target ctx.channel).channel ctx.tx = .error e) :
      Fails n s ses m (.ledgerNotFound (spec.target ctx.channel).channel)
  /-- The caller has no right to write its own channel. -/
  | rightless {spec : CallSpec} {ctx : Context} (puts : ses.Puts m spec ctx)
      (allowed : ses.access.check ctx.signedProposal ctx.proposal (spec.target ctx.channel) =
        .ok ())
      (own : (spec.target ctx.channel).channel = ctx.channel) (missing : ctx.simulator = none) :
      Fails n s ses m (.missingSimulator ctx.channel ctx.tx)
  /-- It is not up to the node to run the call, and whoever it is up to cannot. -/
  | echoed {spec : CallSpec} {ctx : Context} {rights : Simulator × Option Historian} {echo : Echo}
      {e : SessionError} (puts : ses.Puts m spec ctx)
      (allowed : ses.access.check ctx.signedProposal ctx.proposal (spec.target ctx.channel) =
        .ok ())
      (righted : n.callRights ctx (spec.target ctx.channel) = .ok rights)
      (launcher : ses.launcher = .echo echo)
      (failed : callEcho echo (invocation ctx spec rights) = .error e) : Fails n s ses m e
  /-- No session serves the called contract, or it is not clear which one. -/
  | unresolved {e : LaunchError} (call : n.Placed s m)
      (refused : n.directory.resolve call.target = .error e) : Fails n s ses m (.launch e)
  /-- The session that serves the called contract has a context for the transaction already. -/
  | taken {t : SessionId} {ses' : Session} (call : n.Placed s m)
      (resolved : n.directory.resolve call.target = .ok t) (found : n.session? t = some ses')
      (taken : ses'.transactions.exists? call.target.channel call.ctx.tx = true) :
      Fails n s ses m
        (.launch (.executionFailed (SessionError.duplicateTransaction call.ctx.tx).message))

/-- Whoever waits for an execution that returns with `r` learns of that: to a caller from outside it
is the result, and to a contract that asked for the execution the answer to its request. -/
def repaid (n : Node) (r : Message) : Origin → Node
  | .caller label => { n with results := n.results ++ [(label, .ok r)] }
  | .request t _ a => n.modify t (·.repay a (reply a (.ok (Message.codec.encode r))))

/-- The session of a ready contract tells whoever waits for a transaction of `r`: nobody, the caller
of a handshake, or an execution, which returns with it. -/
structure Heard (n : Node) (s : SessionId) (r : Message) (n' : Node) : Prop where
  unknown : ∀ ses, n.session? s = some ses → ses.transactions.find? r.channel r.tx = none → n' = n
  unawaited : ∀ ses c, n.session? s = some ses → ses.transactions.find? r.channel r.tx = some c →
    (∀ call ∈ n.calls, call.session = s → call.context ≠ c) →
      n' = n.modifyContext s c (·.notify r)
  awaited : ∀ ses, n.session? s = some ses → ∀ call ∈ n.calls, call.session = s →
    ses.transactions.find? r.channel r.tx = some call.context →
      ∃ n₁, Returned n call r.key n₁ ∧ n' = n₁.repaid r call.origin

section Fails

variable {P : Act → Prop} {n n' : Node} {s t : SessionId} {ses : Session} {m r : Message}
  {e : SessionError}

theorem find?_of_registered? {t : Transactions} {channel tx : String} {ctx : Context}
    (registered : t.registered? (contextKey channel tx) = some ctx) :
    ∃ c, t.find? channel tx = some c ∧ t.context? c = some ctx :=
  Option.bind_eq_some_iff.1 registered

/-- A request for a call whose marker is free is answered with what carrying it out comes to. -/
theorem dial_of_attempted (invoked : n.Invoked s ses m) {result : Except SessionError Bytes}
    (tried : (n.takenUp s m).attempt s ((ses.pickUp m).claim m.key) ⟨.invoke, m⟩ =
      (.answered result, n.takenUp s m)) :
    n.dial s m = (n.takenUp s m).answer s ⟨.invoke, m⟩ result := by
  rw [dial_free invoked.found invoked.free, tried]

theorem Invoked.answer (invoked : n.Invoked s ses m) (result : Except SessionError Bytes) :
    (n.takenUp s m).answer s ⟨.invoke, m⟩ result =
      n.modify s fun ses => (ses.pickUp m).reply .invoke (reply m result) := by
  have found := session?_modify (f := (·.pickUp m)) invoked.found
  have free : (⟨.invoke, m⟩ : Job).message.key ∉ (ses.pickUp m).transactions.markers := invoked.free
  have answered : ((n.modify s (·.pickUp m)).modify s (·.claim m.key)).answer s ⟨.invoke, m⟩ result =
      (n.modify s (·.pickUp m)).modify s (·.reply .invoke (reply m result)) :=
    answer_of_free found free n.ledger result
  rw [modify_modify, modify_modify] at answered
  exact answered

/-- What carrying out a call comes to that can be read and whose transaction has a context. -/
theorem attempt_of_puts {spec : CallSpec} {ctx : Context} (puts : ses.Puts m spec ctx)
    (n : Node) : ∃ c, n.attempt s ((ses.pickUp m).claim m.key) ⟨.invoke, m⟩ =
      n.invoke s ((ses.pickUp m).claim m.key) c ctx m spec := by
  obtain ⟨c, registered, known⟩ := find?_of_registered? puts.registered
  have registered' : ((ses.pickUp m).claim m.key).transactions.find? m.channel m.tx = some c :=
    registered
  have known' : ((ses.pickUp m).claim m.key).transactions.context? c = some ctx := known
  have read : Request.decode .invoke m.payload = .ok (.invoke spec) := by
    simp only [Request.decode, puts.decoded]
    rfl
  refine ⟨c, ?_⟩
  simp only [attempt, read, registered', known', perform]

theorem invoke_rightless {c : Nat} {spec : CallSpec} {ctx : Context}
    (allowed : ses.access.check ctx.signedProposal ctx.proposal (spec.target ctx.channel) = .ok ())
    (missing : n.callRights ctx (spec.target ctx.channel) = .error e) :
    n.invoke s ((ses.pickUp m).claim m.key) c ctx m spec = (.answered (.error e), n) := by
  have allowed' : ((ses.pickUp m).claim m.key).access.check ctx.signedProposal ctx.proposal
      (spec.target ctx.channel) = .ok () := allowed
  simp only [invoke, allowed', missing]

/-- A call that it is not up to the node to run is answered at once. -/
theorem dial_of_echoed (invoked : n.Invoked s ses m) {spec : CallSpec} {ctx : Context}
    {rights : Simulator × Option Historian} {echo : Echo} (puts : ses.Puts m spec ctx)
    (allowed : ses.access.check ctx.signedProposal ctx.proposal (spec.target ctx.channel) = .ok ())
    (righted : n.callRights ctx (spec.target ctx.channel) = .ok rights)
    (launcher : ses.launcher = .echo echo) :
    n.dial s m = (n.takenUp s m).answer s ⟨.invoke, m⟩
      (callEcho echo (invocation ctx spec rights)) := by
  obtain ⟨c, tried⟩ := attempt_of_puts (s := s) puts (n.takenUp s m)
  refine dial_of_attempted invoked (tried.trans ?_)
  have allowed' : ((ses.pickUp m).claim m.key).access.check ctx.signedProposal ctx.proposal
      (spec.target ctx.channel) = .ok () := allowed
  have righted' : (n.takenUp s m).callRights ctx (spec.target ctx.channel) =
      .ok rights := righted
  have launcher' : ((ses.pickUp m).claim m.key).launcher = .echo echo := launcher
  simp only [invoke, allowed', righted', launcher']

/-- A call to a session that has a context for the transaction already is answered with that, and
nothing is begun. -/
theorem dial_taken {ses' : Session} (call : n.Placed s m) (attested : call.ctx.Attested)
    (resolved : n.directory.resolve call.target = .ok t) (found : n.session? t = some ses')
    (taken : ses'.transactions.exists? call.target.channel call.ctx.tx = true) :
    n.dial s m = (n.takenUp s m).answer s ⟨.invoke, m⟩
      (.error (.launch (.executionFailed
        (SessionError.duplicateTransaction call.ctx.tx).message))) := by
  obtain ⟨ses₁, found₁, index⟩ : ∃ ses₁, (n.takenUp s m).session? t = some ses₁ ∧
      ses₁.transactions.index = ses'.transactions.index := by
    rw [takenUp, session?_modify_if, found]
    split
    · exact ⟨_, rfl, rfl⟩
    · exact ⟨ses', rfl, rfl⟩
  have full : ses₁.transactions.index.contains call.context.key = true := by
    rw [index]
    exact taken
  have begun := begun_begin (n.takenUp s m) t call.context call.message call.origin
  have begins : (n.takenUp s m).begin t call.context call.message call.origin =
      (.error (.duplicateTransaction call.ctx.tx), n.takenUp s m) := by
    generalize (n.takenUp s m).begin _ _ _ _ = r at begun ⊢
    obtain ⟨outcome, n'⟩ := r
    cases begun with
    | missing none =>
      rw [none] at found₁
      cases found₁
    | duplicate => rfl
    | stopped found' fresh | waits found' fresh =>
      cases Option.some.inj (found₁.symm.trans found')
      rw [KeyMap.contains_eq_false_iff.2 fresh] at full
      cases full
  have resolved' : (n.takenUp s m).directory.resolve
      (invocation call.ctx call.spec call.rights).target = .ok t := resolved
  rw [dial_placed call, callSession_resolved call.origin resolved']
  simp only [beginCall, call.called attested, begins]

/-- Nothing comes of a call that fails but the answer, which is the error. -/
theorem answer_of_fails (invoked : n.Invoked s ses m)
    (every : ses.transactions.Every Context.Attested) (fails : n.Fails s ses m e) :
    n.dial s m = (n.takenUp s m).answer s ⟨.invoke, m⟩ (.error e) := by
  have attempted {e : SessionError} := @dial_of_attempted n s ses m invoked (.error e)
  cases fails with
  | @undecodable e undecoded =>
    refine attempted ?_
    have unread : Request.decode .invoke m.payload = .error e := by
      simp only [Request.decode, undecoded]
      rfl
    simp only [attempt, unread]
  | @contextless spec decoded unknown =>
    refine attempted ?_
    have read : Request.decode .invoke m.payload = .ok (.invoke spec) := by
      simp only [Request.decode, decoded]
      rfl
    have absent : ∀ c, ((ses.pickUp m).claim m.key).transactions.find? m.channel m.tx = some c →
        ((ses.pickUp m).claim m.key).transactions.context? c = none :=
      fun c registered => Option.bind_eq_none_iff.1 unknown c registered
    simp only [attempt, read]
    cases registered : ((ses.pickUp m).claim m.key).transactions.find? m.channel m.tx with
    | none => rfl
    | some c => simp only [absent c registered]
  | @denied spec ctx e puts denied =>
    obtain ⟨c, tried⟩ := attempt_of_puts (s := s) puts (n.takenUp s m)
    refine attempted (tried.trans ?_)
    have denied' : ((ses.pickUp m).claim m.key).access.check ctx.signedProposal ctx.proposal
        (spec.target ctx.channel) = .error e := denied
    simp only [invoke, denied']
  | @ledgerless spec ctx e puts allowed other missing =>
    obtain ⟨c, tried⟩ := attempt_of_puts (s := s) puts (n.takenUp s m)
    have missing' : (n.takenUp s m).callRights ctx (spec.target ctx.channel) =
        .error (.ledgerNotFound (spec.target ctx.channel).channel) := by
      rw [callRights, if_neg other]
      simp only [takenUp, modify, missing]
    exact attempted (tried.trans (invoke_rightless allowed missing'))
  | @rightless spec ctx puts allowed own missing =>
    obtain ⟨c, tried⟩ := attempt_of_puts (s := s) puts (n.takenUp s m)
    have missing' : (n.takenUp s m).callRights ctx (spec.target ctx.channel) =
        .error (.missingSimulator ctx.channel ctx.tx) := by
      rw [callRights, if_pos own, missing]
    exact attempted (tried.trans (invoke_rightless allowed missing'))
  | echoed puts allowed righted launcher failed =>
    exact failed ▸ dial_of_echoed invoked puts allowed righted launcher
  | unresolved call refused => exact dial_refused call refused
  | @taken t ses' call resolved found' taken =>
    cases Option.some.inj (invoked.found.symm.trans call.found)
    exact dial_taken call (every.found call.registered call.known) resolved found' taken

/-- All that comes of a call that fails is that one error is queued for the caller's contract. -/
theorem dial_of_fails (invoked : n.Invoked s ses m)
    (every : ses.transactions.Every Context.Attested) (fails : n.Fails s ses m e) :
    n.dial s m = n.modify s fun ses => (ses.pickUp m).reply .invoke (reply m (.error e)) := by
  rw [answer_of_fails invoked every fails, invoked.answer]

/-! ## Beyond the caller -/

structure Beyond (s : SessionId) (n n' : Node) : Prop where
  ledger : n'.ledger = n.ledger
  others : ∀ t, s ≠ t → n'.session? t = n.session? t

namespace Beyond

variable {n'' : Node}

theorem trans (h : Beyond s n n') (h' : Beyond s n' n'') : Beyond s n n'' :=
  ⟨h'.ledger.trans h.ledger, fun t other => (h'.others t other).trans (h.others t other)⟩

theorem refl (n : Node) : Beyond s n n := ⟨rfl, fun _ _ => rfl⟩

theorem modify (n : Node) (f : Session → Session) : Beyond s n (n.modify s f) :=
  ⟨rfl, fun _ other => (session?_modify_if ..).trans (if_neg other)⟩

end Beyond

/-- The contract that asked for a call that fails is to be sent the error, and no contract anything
else. -/
theorem sends_of_fails (invoked : n.Invoked s ses m) (every : ses.transactions.Every Context.Attested)
    (fails : n.Fails s ses m e) :
    (n.dial s m).calls = n.calls ∧ n.Sends s (reply m (.error e)) (n.dial s m) ∧
      Beyond s n (n.dial s m) := by
  rw [answer_of_fails invoked every fails]
  exact ⟨rfl, (sends_answer _ s ⟨.invoke, m⟩ _).of_due (n.due_takenUp s m),
    (Beyond.modify n _).trans (.modify _ _)⟩

/-! ## The error ends the execution -/

theorem quiet_sendAnyway {gates : List String} (quiet : ses.Quiet gates) (m : Message) :
    (ses.sendAnyway m).Quiet gates := by
  unfold Session.sendAnyway
  cases sent : ses.send m with
  | error e => exact quiet
  | ok ses' =>
    unfold Session.send at sent
    split at sent
    · cases sent
    · rename_i link linked
      cases sent
      rcases ses.link.send_cases m with ⟨e, failed⟩ | ⟨_, more⟩
      · rw [failed] at linked
        cases linked
      · rw [more] at linked
        cases linked
        exact ⟨quiet.commands, quiet.pool, quiet.dials, quiet.parked, quiet.inbox⟩

/-- What is queued for an outbound loop that does not run gives a session nothing to do. -/
theorem quiet_trigger {gates : List String} (quiet : ses.Quiet gates)
    (off : ses.outbound ≠ .running) (m : Message) : (ses.trigger m true).2.Quiet gates := by
  unfold Session.trigger Session.enqueue
  split
  · exact quiet
  · exact ⟨fun running => absurd running off, quiet.pool, quiet.dials, quiet.parked, quiet.inbox⟩

/-! ## Whoever waits -/

/-- On a node at rest, an answer that is to be forwarded reaches the contract. -/
theorem settle_of_queued (rest : n.AtRest) (found : n.session? t = some ses)
    (running : ses.outbound = .running) (response : r.kind = .response) :
    (n.withSession t (ses.trigger r true).2).settle = n.withSession t (ses.sendAnyway r) := by
  have quiet := (atRest_iff.1 rest).2 t ses found
  have empty := quiet.commands running
  have queued : (ses.trigger r true).2 =
      { ses with commands := [.next { message := r, forward := true }] } := by
    simp [Session.trigger, Session.enqueue, running, empty]
  have still : { ses with commands := [] } = ses := by rw [← empty]
  have sent : (n.withSession t (ses.sendAnyway r)).AtRest :=
    atRest_withSession rest found (ses.talks_sendAnyway r).transactions (quiet_sendAnyway quiet r)
  rw [queued, settle_of_forward rest found ses rfl running quiet.dials r, still,
    withSession_self found, handle_of_response n t response, modify_eq_withSession found,
      settle_of_atRest sent]

/-- On a node at rest, an execution's request is answered, and nothing else comes of that. -/
theorem settle_of_answer (rest : n.AtRest) (a : Message) (b : Bytes) :
    (n.answer t ⟨.invoke, a⟩ (.ok b)).settle = n.modify t (·.repay a (reply a (.ok b))) := by
  have queued : n.answer t ⟨.invoke, a⟩ (.ok b) = n.modify t fun ses =>
      ((ses.freed a).trigger (reply a (.ok b)) true).2 := rfl
  rw [queued]
  cases found : n.session? t with
  | none =>
    have missing (f : Session → Session) : n.modify t f = n :=
      modify_self fun ses found' => by rw [found] at found'; cases found'
    rw [missing, missing, settle_of_atRest rest]
  | some ses =>
    have quiet := (atRest_iff.1 rest).2 t ses found
    have quiet' : (ses.freed a).Quiet n.gates :=
      ⟨quiet.commands, quiet.pool, quiet.dials, quiet.parked, quiet.inbox⟩
    have freed : (n.withSession t (ses.freed a)).AtRest :=
      atRest_of_kept _ rest found (fun _ _ _ => rfl) quiet'
    have found' := session?_withSession found (ses.freed a)
    rw [modify_eq_withSession found, modify_eq_withSession found,
      ← withSession_withSession n t (ses.freed a)]
    unfold Session.repay
    by_cases running : ses.outbound = .running
    · rw [if_pos running, settle_of_queued freed found' running rfl, withSession_withSession]
    · rw [if_neg running, settle_of_atRest, withSession_withSession]
      have off : (ses.freed a).outbound ≠ .running := running
      refine atRest_withSession freed found' ((ses.freed a).talks_enqueue _).transactions ?_
      exact quiet_trigger quiet' off _

/-- The result of an execution reaches whoever waits for it. -/
theorem settle_of_delivered (rest : n.AtRest) (origin : Origin) (r : Message) :
    (n.deliver origin (.ok r)).settle = n.repaid r origin := by
  cases origin with
  | caller label => exact settle_of_atRest (atRest_results rest _)
  | request t c a => exact settle_of_answer rest a _

theorem heard_of_notify (sound : n.Sound) (rest : n.AtRest) :
    Heard n s r (n.modify s (·.notify r)).settle := by
  refine ⟨fun ses found unknown => ?_, fun ses c found registered nobody => ?_,
    fun ses found call waits session registered => ?_⟩
  · have same : n.modify s (·.notify r) = n := modify_self fun ses' found' => by
      cases Option.some.inj (found.symm.trans found')
      exact Session.notify_of_unknown unknown
    rw [same, settle_of_atRest rest]
  · have quiet := (atRest_iff.1 rest).2 s ses found
    rw [notify_registered found registered]
    refine settle_of_atRest (atRest_of_kept _ rest found (fun call waits session => ?_)
      ⟨quiet.commands, quiet.pool, quiet.dials, quiet.parked, quiet.inbox⟩)
    rw [Transactions.context?_modify, if_neg (Ne.symm (nobody call waits session))]
  · subst session
    obtain ⟨ctx, known, _⟩ := sound.waits call waits
    have turn := turn?_of_notified (m := r) sound rest waits known
    obtain ⟨ses', found', known⟩ := context?_eq_some_iff.1 known
    cases Option.some.inj (found.symm.trans found')
    have spec := returned_spec sound waits found registered known
    refine ⟨_, spec, ?_⟩
    rw [notify_registered found registered, settle_of_turn turn,
      settle_of_delivered (spec.atRest sound rest waits)]

/-! ## Calls that do not fail -/

theorem listed_of_resolve {d : Directory} {i : ContractInstance} (resolved : d.resolve i = .ok t) :
    ∃ k, d.get? k = some t := by
  unfold Directory.resolve at resolved
  split at resolved
  · rename_i t' entry
    cases resolved
    exact ⟨_, entry⟩
  · split at resolved
    · rename_i t' alone
      cases resolved
      split at alone
      · obtain ⟨⟨k, t'⟩, mem, rfl⟩ := List.mem_map.1 (alone ▸ List.mem_singleton_self t)
        exact ⟨k, KeyMap.mem_entries_iff.1 (List.mem_of_mem_filter mem)⟩
      · cases alone
    · cases resolved
    · cases resolved

/-- A call that does not fail begins an execution, unless it is not up to the node to run it. Then
it is answered. That is as long as nobody enters a session in the directory by hand. -/
theorem fails_or_begins (byHand : ∀ key s, ¬ P (.registerKey key s))
    {channels historyless system : List String} {drill : Drill}
    (run : Moves P (withChannels channels historyless system drill) n)
    (invoked : n.Invoked s ses m) :
    (∃ e, n.Fails s ses m e) ∨ (∃ w, (n.dial s m).calls = n.calls ++ [w]) ∨
      ∃ b, n.dial s m = n.modify s fun ses => (ses.pickUp m).reply .invoke (reply m (.ok b)) := by
  have every : n.Every Context.Attested :=
    every_moves hereditary_attested (every_withChannels _ _ _ _) (fun _ _ => trivial) run
  have proper :=
    proper_moves byHand (tidy_withChannels channels historyless system drill fun _ => False).proper run
  cases decoded : CallSpec.codec.decode m.payload with
  | error e => exact .inl ⟨_, .undecodable decoded⟩
  | ok spec =>
  cases registered : ses.transactions.registered? m.key with
  | none => exact .inl ⟨_, .contextless decoded registered⟩
  | some ctx =>
  have puts : ses.Puts m spec ctx := ⟨decoded, registered⟩
  cases allowed : ses.access.check ctx.signedProposal ctx.proposal (spec.target ctx.channel) with
  | error e => exact .inl ⟨_, .denied puts allowed⟩
  | ok u =>
  cases righted : n.callRights ctx (spec.target ctx.channel) with
  | error e =>
    unfold callRights at righted
    split at righted
    · rename_i own
      split at righted
      · rename_i missing
        exact .inl ⟨_, .rightless puts allowed own missing⟩
      · cases righted
    · rename_i other
      split at righted
      · rename_i missing
        exact .inl ⟨_, .ledgerless puts allowed other missing⟩
      · cases righted
  | ok rights =>
  cases launcher : ses.launcher with
  | echo echo =>
    cases echoed : callEcho echo (invocation ctx spec rights) with
    | error e => exact .inl ⟨_, .echoed puts allowed righted launcher echoed⟩
    | ok b =>
      refine .inr (.inr ⟨b, ?_⟩)
      rw [dial_of_echoed invoked puts allowed righted launcher, echoed, invoked.answer]
  | directory =>
  obtain ⟨no, indexed, known⟩ := find?_of_registered? registered
  let call : n.Placed s m :=
    { ses, no, ctx, spec, rights, decoded, allowed, righted
      found := invoked.found, dialled := invoked.dialled, free := invoked.free
      registered := indexed, known := known, byNode := launcher }
  cases resolved : n.directory.resolve call.target with
  | error e => exact .inl ⟨_, .unresolved call resolved⟩
  | ok t =>
  obtain ⟨k, entry⟩ := listed_of_resolve resolved
  obtain ⟨ses', found', serves⟩ := proper.directory k t entry
  cases taken : ses'.transactions.exists? call.target.channel call.ctx.tx with
  | true => exact .inl ⟨_, .taken call resolved found' taken⟩
  | false =>
    have on : ses'.outbound ≠ .stopped := fun off =>
      not_astray_of_moves run found' ⟨off, serves.live⟩
    obtain ⟨w, _, _, begins⟩ := begins_of_resolved call
      ((every s ses invoked.found).found call.registered call.known) resolved found' on
      (KeyMap.contains_eq_false_iff.1 taken)
    exact .inr (.inl ⟨w, begins.calls⟩)

/-! ## What a call that fails comes to -/

/-- The node has the given ledger and directory, and one session the given launcher. -/
def supplied (n : Node) (s : SessionId) (ledger : Ledger) (historyless : List String)
    (directory : Directory) (launcher : Launcher) : Node :=
  { n with ledger, historyless, directory }.modify s fun ses => { ses with launcher }

/-- A call that is not allowed is answered without regard to the ledger, the directory or the
launcher. -/
theorem dial_of_denied (invoked : n.Invoked s ses m) {spec : CallSpec} {ctx : Context}
    {d : AccessError} (puts : ses.Puts m spec ctx)
    (denied : ses.access.check ctx.signedProposal ctx.proposal (spec.target ctx.channel) = .error d)
    (every : ses.transactions.Every Context.Attested) (ledger : Ledger)
    (historyless : List String) (directory : Directory) (launcher : Launcher) :
    (n.supplied s ledger historyless directory launcher).dial s m =
      (n.dial s m).supplied s ledger historyless directory launcher := by
  have found : (n.supplied s ledger historyless directory launcher).session? s =
      some { ses with launcher } := session?_modify (n := { n with ledger, historyless, directory })
    invoked.found
  have invoked' : (n.supplied s ledger historyless directory launcher).Invoked s
      { ses with launcher } m := ⟨found, invoked.dialled, invoked.free⟩
  have same (r : Message) (ses : Session) :
      (Session.pickUp { ses with launcher } m).reply .invoke r =
        { (ses.pickUp m).reply .invoke r with launcher } := by
    show (Session.enqueue (Session.pickUp { ses with launcher } m) _).2 =
      { (Session.enqueue (ses.pickUp m) _).2 with launcher }
    unfold Session.enqueue Session.pickUp
    split <;> rfl
  rw [dial_of_fails invoked every (.denied puts denied),
    dial_of_fails invoked' every (.denied ⟨puts.decoded, puts.registered⟩ denied)]
  exact modify_comm { n with ledger, historyless, directory } s s fun ses => (same _ ses).symm

/-- Whoever is told, other sessions stay as they are, but for one that asked for the execution. -/
theorem Heard.others (heard : n.Heard s r n') (found : n.session? s = some ses) :
    n'.ledger = n.ledger ∧ ∀ u, s ≠ u →
      (∀ call ∈ n.calls, call.session = s →
        ses.transactions.find? r.channel r.tx = some call.context →
          ∀ c a, call.origin ≠ .request u c a) → n'.session? u = n.session? u := by
  have changed {n₁ : Node} (same : n' = n₁) (beyond : Beyond s n n₁) : n'.ledger = n.ledger ∧
      ∀ u, s ≠ u → n'.session? u = n.session? u := same ▸ ⟨beyond.ledger, beyond.others⟩
  cases registered : ses.transactions.find? r.channel r.tx with
  | none =>
    obtain ⟨ledger, others⟩ := changed (heard.unknown ses found registered) (.refl n)
    exact ⟨ledger, fun u other _ => others u other⟩
  | some c =>
    by_cases nobody : ∀ call ∈ n.calls, call.session = s → call.context ≠ c
    · obtain ⟨ledger, others⟩ :=
        changed (heard.unawaited ses c found registered nobody) (.modify n _)
      exact ⟨ledger, fun u other _ => others u other⟩
    · simp only [not_forall, not_not] at nobody
      obtain ⟨call, waits, rfl, rfl⟩ := nobody
      obtain ⟨n₁, returned, rfl⟩ := heard.awaited ses found call waits rfl registered
      have ledger : n₁.ledger = n.ledger := by rw [returned.rest]
      cases asked : call.origin with
      | caller label => exact ⟨ledger, fun u other _ => returned.others u other⟩
      | request t c a =>
        refine ⟨ledger, fun u other apart => ?_⟩
        have elsewhere : t ≠ u := fun same => apart call waits rfl rfl c a (same ▸ asked)
        exact (session?_modify_if ..).trans ((if_neg elsewhere).trans (returned.others u other))

/-- The caller's contract has been sent the error, as far as it is connected, and whoever waits for
the caller's transaction has been told. Only the caller's session has changed, and the one that made
a call if that is what the caller was running. -/
structure Settled (n : Node) (s : SessionId) (ses : Session) (r : Message) (n' : Node) : Prop where
  heard : (n.modify s (·.sendAnyway r)).Heard s r n'
  ledger : n'.ledger = n.ledger
  others : ∀ u, s ≠ u →
    (∀ call ∈ n.calls, call.session = s →
      ses.transactions.find? r.channel r.tx = some call.context →
        ∀ c a, call.origin ≠ .request u c a) → n'.session? u = n.session? u

/-- On a node that is at rest but for a call request that has just been given to its thread, the
request fails, and the error reaches the caller's contract and whoever waits. -/
theorem settled_of_fails {n₀ : Node} {ses₀ : Session} (rest : n₀.AtRest)
    (found₀ : n₀.session? s = some ses₀) (ready : ses₀.phase = .ready)
    (running : ses₀.outbound = .running) (dialled : n = n₀.modify s (·.dial m))
    (invoked : n.Invoked s ses m) (every : ses.transactions.Every Context.Attested)
    (fails : n.Fails s ses m e) (sound : n₀.Sound) :
    n₀.Settled s ses₀ (reply m (.error e)) n.settle := by
  have quiet := (atRest_iff.1 rest).2 s ses₀ found₀
  have same := (ses₀.talks_sendAnyway (reply m (.error e))).transactions
  have found := session?_modify (f := (·.sendAnyway (reply m (.error e)))) found₀
  have touches : Touches n₀ (n₀.modify s (·.sendAnyway (reply m (.error e)))) :=
    .apart s fun ses => (ses.talks_sendAnyway _).transactions
  have heard := heard_of_notify (r := reply m (.error e)) (s := s) (sound_touch sound touches)
    (atRest_modify _ rest found₀ same (quiet_sendAnyway quiet _))
  have outbound : RequestKind.invoke.route = .outbound := rfl
  have replied : n.dial s m = n₀.modify s (·.reply .invoke (reply m (.error e))) := by
    rw [dial_of_fails invoked every fails, dialled, modify_modify]
    refine modify_congr fun ses' found' => ?_
    cases Option.some.inj (found₀.symm.trans found')
    exact congrArg (Session.reply .invoke _) (pickUp_dial quiet.dials m)
  have settled : n.settle = (n.dial s m).settle := by
    rw [dialled]
    exact settle_of_dialled rest found₀ m
  rw [← settle_of_error rest found₀ ready running outbound rfl, ← replied, ← settled] at heard
  obtain ⟨ledger, others⟩ := heard.others found
  refine ⟨heard, ledger, fun u other apart => ?_⟩
  rw [same] at others
  exact (others u other apart).trans ((session?_modify_if ..).trans (if_neg other))

/-- The outbound loop of a session forwards an error: whoever waits under its key is told. No other
session has to do with that and, once the execution has returned that was told, none but the one
whose contract asked for it. -/
structure Forwards (n : Node) (s : SessionId) (r : Message) (n' : Node) : Prop where
  delivered : Delivered n s r n'
  beyond : Beyond s n n'
  returned : ∀ call ∈ n'.calls, call.session = s → ∀ n'', n'.finish? call = some n'' →
    n''.ledger = n'.ledger ∧ ∀ u, s ≠ u → (∀ c a, call.origin ≠ .request u c a) →
      n''.session? u = n'.session? u

theorem forwards_command? {rest : List Instruction} (took : n.command? s = some n')
    (sound : n.Sound) (found : n.session? s = some ses) (ready : ses.phase = .ready)
    (queued : ses.commands = .next { message := r, forward := true } :: rest)
    (failure : r.kind = .error) : n.Forwards s r n' where
  delivered := delivered_command? took sound found queued rfl ready failure
  beyond := by
    have found' := session?_modify (f := fun ses => { ses with commands := rest }) found
    rw [command?_of_next took found queued rfl, handle_of_ends found' ready (.inr failure)]
    exact ((Beyond.modify n _).trans (.modify _ _)).trans (.modify _ _)
  returned call waits session n'' finished := by
    obtain ⟨ctx, m, _, _, rfl⟩ := finish?_cases finished
    have released (u : SessionId) (other : s ≠ u) :
        (n'.released call ctx fun c => { c with slot := c.slot.drop }).session? u = n'.session? u :=
      (session?_modify_if ..).trans (if_neg (session ▸ other))
    cases call.origin with
    | caller label => exact ⟨rfl, fun u other _ => released u other⟩
    | request t c a =>
      refine ⟨rfl, fun u other apart => ?_⟩
      have elsewhere : t ≠ u := fun same => apart c a (same ▸ rfl)
      exact ((session?_modify_if ..).trans (if_neg elsewhere)).trans (released u other)

/-- What a call comes to that fails with `e` when its thread takes it up, after the moves that led
from `n₀` to `n`. Its session was asked for it while it was ready. Its contract is to be sent the
error, and no contract anything; and so it is sent, as long as it is connected. When the outbound loop
forwards the error to a session that is still ready, that ends the execution that the call was made
in, unless that had a message already. On a node that is at rest otherwise, all of this happens at
once. -/
structure Failed (P : Act → Prop) (n₀ n : Node) (s : SessionId) (ses : Session) (m : Message)
    (e : SessionError) : Prop where
  asked : Asked P s ⟨.invoke, m⟩ n₀ n
  turned : (n.dial s m).calls = n.calls ∧ n.Sends s (reply m (.error e)) (n.dial s m) ∧
    Beyond s n (n.dial s m)
  carries : (∀ a, P a → a.isManned = true) → ∀ n₁ n₂, Moves P (n.dial s m) n₁ →
    (n₁.desk s).isOpen = true → Relation.ReflTransGen
      (fun n n' => Move P n n' ∧ (n'.desk s).isOpen = true) n₁ n₂ → ∃ es, Carries P n₁ s es n₂
  forwarded : ∀ n₁ n₂ ses₁ rest, Moves P (n.dial s m) n₁ → n₁.session? s = some ses₁ →
    ses₁.phase = .ready →
      ses₁.commands = .next { message := reply m (.error e), forward := true } :: rest →
        n₁.command? s = some n₂ → n₁.Forwards s (reply m (.error e)) n₂
  settled : ∀ n₁ ses₁, Moves P n₀ n₁ → n₁.AtRest → n₁.session? s = some ses₁ →
    ses₁.phase = .ready → ses₁.outbound ≠ .idle → n = n₁.modify s (·.dial m) →
      n₁.Settled s ses₁ (reply m (.error e)) n.settle
  unconsulted : ∀ spec ctx d, ses.Puts m spec ctx →
    ses.access.check ctx.signedProposal ctx.proposal (spec.target ctx.channel) = .error d →
      ∀ ledger historyless directory launcher,
        (n.supplied s ledger historyless directory launcher).dial s m =
          (n.dial s m).supplied s ledger historyless directory launcher

/-- A call that a contract asks its session for may fail before anything is queued for the contract
that is to be called. All that comes of it is one error for the caller's contract, which ends the
execution that waits under the same key. If the call was not allowed, neither the ledger nor the
directory nor the launcher has anything to do with it. -/
theorem failed_of_fails {channels historyless system : List String} {drill : Drill}
    (run : Moves P (withChannels channels historyless system drill) n)
    (invoked : n.Invoked s ses m) (fails : n.Fails s ses m e) :
    Failed P (withChannels channels historyless system drill) n s ses m e := by
  have every : ses.transactions.Every Context.Attested :=
    every_moves hereditary_attested (every_withChannels _ _ _ _) (fun _ _ => trivial) run s ses
      invoked.found
  have dialled : Move P n (n.dial s m) := .dial invoked.found invoked.dialled
  have sound {n' : Node} (run : Moves P (withChannels channels historyless system drill) n') :
      n'.Sound := sound_moves (sound_withChannels ..) run
  refine ⟨asked_of_dialled run invoked.found invoked.dialled, sends_of_fails invoked every fails,
    fun built n₁ n₂ later isOpen stays => ?_, fun n₁ n₂ ses₁ rest later found ready queued took => ?_,
    fun n₁ ses₁ before rest found ready started given => ?_,
    fun spec ctx d puts denied => dial_of_denied invoked puts denied every⟩
  · have attended := attended_moves built
      (attended_withChannels channels historyless system drill) ((run.tail dialled).trans later)
    exact carries_of_moves built attended isOpen stays
  · exact forwards_command? took (sound ((run.tail dialled).trans later)) found ready queued rfl
  · have busy : ses₁.inbound = .running ∧ ses₁.outbound = .running :=
      holds_of_moves Session.lasting_busy (fun _ _ _ started => absurd rfl started) before found
        started (ready ▸ Phase.noConfusion)
    exact settled_of_fails rest found ready busy.2 given invoked every fails (sound before)

end Fails

/-- Where the execution that a failed call was made in was a call itself, its caller is another
contract, and is sent the error as the answer. An execution whose context somebody has deleted does
not return. And nothing is sent on a connection that is broken, or before the loops are started. -/
theorem failed_elsewhere :
    let acts := meetingRun .contractSends { name := "cc" }
    let m := meetingCall { name := "missing" }
    let missing := reply m (.error (.launch (.launchFailed "contract missing is not running")))
    let waits (n : Node) (s : SessionId) : Bool := (n.session? s).any fun ses =>
      ses.phase == .ready && ses.transactions.markers.isEmpty
    let asked := meetingCall { name := "cc" }
    let n := (withChannels ["ch"] [] [] {}).steps (acts ++ [.contractSends 1 asked])
    let n₁ := (withChannels ["ch"] [] [] {}).steps (acts ++ [.deleteContext 1 "ch" "t1"])
    let n₂ := (withChannels ["ch"] [] [] {}).steps (acts ++ [.breakSend 1 true])
    let n₃ := (withChannels ["ch"] [] [] {}).steps [.openSession {} {} .directory,
      .handle 0 { kind := .register, payload := ContractId.codec.encode { name := "dd" } },
      .handle 0 { kind := .ready },
      .execute 0 "a" "ch" { kind := .transaction, tx := "t1" } none none]
    (waits n 0 ∧ (n.step (.contractSends 0 m)).outbox 0 = n.outbox 0 ++ [missing] ∧
      (n.step (.contractSends 0 m)).outbox 1 =
        n.outbox 1 ++ [reply asked (.ok (Message.codec.encode missing))]) ∧
    (waits n₁ 1 ∧ n₁.calls = [⟨1, 0, .caller "a", none⟩] ∧
      (n₁.context? 1 0).map (·.key) = some m.key ∧
      (n₁.step (.contractSends 1 m)).outbox 1 =
        n₁.outbox 1 ++ [reply m (.error (.missingContext "ch" "t1"))] ∧
      (n₁.step (.contractSends 1 m)).calls = n₁.calls) ∧
    (waits n₂ 1 ∧ (n₂.step (.contractSends 1 m)).results = [("a", .ok missing)] ∧
      (n₂.step (.contractSends 1 m)).outbox 1 = n₂.outbox 1) ∧
    (waits n₃ 0 ∧ (n₃.step (.handle 0 m)).outbox 0 = n₃.outbox 0 ∧
      ((n₃.step (.handle 0 m)).session? 0).bind (·.commands.getLast?) =
        some (.next { message := missing, forward := true })) := by
  decide +kernel

/-- A call to a contract that nobody serves. -/
theorem failed_of_fails_meetingRun :
    let m := meetingCall { name := "missing" }
    let n := ((withChannels ["ch"] [] [] {}).steps
      (meetingRun .contractSends { name := "cc" })).act (.handle 1 m)
    ∃ ses, n.session? 1 = some ses ∧ Failed (fun _ => True) (withChannels ["ch"] [] [] {}) n 1 ses m
      (.launch (.launchFailed "contract missing is not running")) := by
  intro m n
  have run : Moves (fun _ => True) (withChannels ["ch"] [] [] {}) n :=
    (moves_steps fun _ _ => trivial).trans (moves_act trivial)
  have there : (n.placed? 1 m).any (fun call => n.directory.resolve call.target =
      .error (.launchFailed "contract missing is not running")) = true := by decide +kernel
  obtain ⟨call, _, refused⟩ := (Option.any_eq_true ..).1 there
  have invoked : n.Invoked 1 call.ses m := ⟨call.found, call.dialled, call.free⟩
  exact ⟨call.ses, call.found,
    failed_of_fails run invoked (.unresolved call (of_decide_eq_true refused))⟩

end Node

end ContractNode
