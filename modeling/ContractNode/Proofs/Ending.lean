import ContractNode.Proofs.Proper

/-!
# What the end of a session does

* `Node.Calm` : a change that ends no session;
* `Node.Ended` : a session ends, which tells everybody who waits on it (`told_notifyAll`);
* `calm_or_ended` : every deed is one or the other;
* `Node.Closing` : sessions that have ended stop their outbound loops (`closing_deed`).
-/

namespace ContractNode

/-- A session stops its outbound loop, if that has not stopped yet. -/
def Session.Closing (ses : Session) : Prop :=
  ses.outbound = .stopped ∨ ses.outbound = .running ∧ .shutdown ∈ ses.commands

/-- Whoever waits for a registered context has been told something. -/
def Transactions.Told (t t' : Transactions) : Prop :=
  ∀ k c ctx, t.index.get? k = some c → t.context? c = some ctx → ctx.slot.receiver ≠ .dropped →
    ∃ ctx', t'.context? c = some ctx' ∧ ctx'.slot.message.isSome = true

namespace Transactions

variable {t t' t'' : Transactions}

theorem Told.after (f : t.Follows t') (told : t'.Told t'') : t.Told t'' := by
  intro k c ctx registered known there
  obtain ⟨ctx', known', follows⟩ := f.contexts c ctx known
  exact told k c ctx' (f.index ▸ registered) known' (follows.receiver.symm ▸ there)

theorem isSome_notify {c : Context} (there : c.slot.receiver ≠ .dropped) (m : Message) :
    (c.notify m).slot.message.isSome = true := by
  show (c.slot.notify m).2.message.isSome = true
  rw [Slot.message_notify]
  split
  · rfl
  · rename_i taken
    simp only [Slot.isFree, Bool.and_eq_true, bne_iff_ne, not_and, Decidable.not_not] at taken
    cases held : c.slot.message with
    | none => exact absurd (taken (by rw [held]; rfl)) there
    | some m' => rfl

/-- A change of contexts, one after the other, by which each is told something. Those that come
later still go on, and those that were told keep what they were. -/
theorem told_foldl {f : Context → Context} (follows : ∀ ctx : Context, ctx.Follows (f ctx))
    (tells : ∀ ctx : Context, ctx.slot.receiver ≠ .dropped → (f ctx).slot.message.isSome = true)
    {l : List Nat} {c : Nat} (mem : c ∈ l) {ctx : Context} (known : t.context? c = some ctx)
    (there : ctx.slot.receiver ≠ .dropped) :
    ∃ ctx', (l.foldl (fun t c => t.modify c f) t).context? c = some ctx' ∧
      ctx'.slot.message.isSome = true := by
  induction l generalizing t with
  | nil => exact absurd mem List.not_mem_nil
  | cons d l ih =>
    by_cases same : d = c
    · subst same
      have told : (t.modify d f).context? d = some (f ctx) := by
        rw [context?_modify, if_pos rfl, known]
        rfl
      obtain ⟨ctx', known', goes⟩ := (follows_foldl follows l _).contexts d _ told
      obtain ⟨m, held⟩ := Option.isSome_iff_exists.1 (tells ctx there)
      exact ⟨ctx', known', by rw [goes.message m held]; rfl⟩
    · refine ih ((List.mem_cons.1 mem).resolve_left (Ne.symm same)) ?_
      rw [context?_modify, if_neg same, known]

end Transactions

/-- The end of a session is told to every transaction in flight. -/
theorem Session.told_notifyAll (ses : Session) :
    ses.transactions.Told ses.notifyAll.transactions := by
  intro k c ctx registered known there
  have tells (ctx : Context) (there : ctx.slot.receiver ≠ .dropped) :=
    Transactions.isSome_notify there ⟨.error, ctx.channel, ctx.tx, farewell, none⟩
  exact Transactions.told_foldl (fun ctx => .notify ctx _) tells
    (Transactions.mem_registered registered) known there

namespace Node

/-- No session ends, and one that has ended goes on to stop. -/
def Calm (n n' : Node) : Prop :=
  ∀ s ses', n'.session? s = some ses' → ses'.phase = .ended →
    ∃ ses, n.session? s = some ses ∧ ses.phase = .ended ∧ (ses.Closing → ses'.Closing)

structure Ended (n : Node) (s : SessionId) (n' : Node) : Prop where
  calls : n'.calls = n.calls
  others : ∀ t, s ≠ t → n'.session? t = n.session? t
  itself : ∀ ses, n.session? s = some ses → ∃ ses', n'.session? s = some ses' ∧
    ses'.phase = .ended ∧ ses'.Closing ∧ ses.transactions.Follows ses'.transactions ∧
      (ses.phase ≠ .ended → ses.transactions.Told ses'.transactions)

/-! ## Calm deeds -/

theorem calm_steady {n n' : Node} (steady : Steady n n') : Calm n n' := by
  intro s ses' found' ended
  obtain ⟨ses, found, same⟩ := steady.back found'
  refine ⟨ses, found, same.phase.symm.trans ended, fun closing => ?_⟩
  unfold Session.Closing at closing ⊢
  rw [same.outbound]
  exact closing.imp_right fun on => ⟨on.1, same.shutdown on.2⟩

theorem calm_setPhase {n n' : Node} {s : SessionId} {phase : Phase} (live : phase ≠ .ended)
    (others : ∀ t, s ≠ t → n'.session? t = n.session? t) : Calm n (n'.setPhase s phase) := by
  intro t ses' found' ended
  unfold setPhase at found'
  rcases session?_modify_cases found' with ⟨rfl, ses, _, rfl⟩ | ⟨other, found'⟩
  · exact absurd ended live
  · exact ⟨ses', (others t other).symm.trans found', ended, fun closing => closing⟩

theorem calm_deregister (n : Node) (s : SessionId) : Calm n (n.deregister s) := by
  intro t ses' found' ended
  by_cases same : s = t
  · subst same
    cases found : n.session? s with
    | none =>
      simp only [deregister, found] at found'
      cases found'
    | some ses =>
      rw [session?_deregister found] at found'
      cases found'
      exact ⟨ses, rfl, ended, fun closing => closing⟩
  · rw [session?_deregister_other n same] at found'
    exact ⟨ses', found', ended, fun closing => closing⟩

theorem session?_register_other {n n' : Node} {s t : SessionId} {m : Message}
    {r : Except SessionError Unit} (registered : n.register s m = (r, n')) (other : s ≠ t) :
    n'.session? t = n.session? t := by
  have registering := registering_register n s m
  rw [registered] at registering
  change Registering n s m r n' at registering
  have listed (id : ContractId) (d : Directory) : (n.listed s id d).session? t = n.session? t := by
    unfold Node.listed
    rw [session?_modify_if, if_neg other]
    rfl
  cases registering with
  | refused => rfl
  | unsent e free given =>
    rw [given, session?_deregister_other _ other]
    exact listed _ _
  | told link free sent =>
    rw [sent, session?_modify_if, if_neg other]
    exact listed _ _

/-! ## The end of a session -/

theorem closing_stop {ses : Session} (on : ses.outbound ≠ .idle) : ses.stop.Closing := by
  by_cases off : ses.outbound = .stopped
  · exact .inl off
  · refine .inr ⟨?_, ?_⟩
    · show ses.outbound = .running
      cases h : ses.outbound with
      | idle => exact absurd h on
      | running => rfl
      | stopped => exact absurd h off
    · show .shutdown ∈ if ses.outbound = .stopped then [] else ses.commands ++ [.shutdown]
      rw [if_neg off]
      exact List.mem_append_right _ List.mem_cons_self

theorem ended_endSession {n : Node} {s : SessionId} {ses : Session}
    (found : n.session? s = some ses) (on : ses.outbound ≠ .idle) : Ended n s (n.endSession s) := by
  have others (n : Node) (t : SessionId) (other : s ≠ t) :
      (n.closed s).session? t = n.session? t := by
    unfold closed
    rw [session?_modify_if, if_neg other, session?_deregister_other _ other]
  refine ⟨(touches_endSession n s).calls, fun t other => ?_, fun ses' found' => ?_⟩
  · rw [endSession_eq found]
    split
    · exact others n t other
    · rw [others _ t other]
      unfold farewelled
      rw [session?_modify_if, if_neg other]
  · cases Option.some.inj (found.symm.trans found')
    rw [endSession_eq found]
    split
    · rename_i ended
      exact ⟨_, session?_closed found, rfl, closing_stop on, .refl _, absurd ended⟩
    · have told : (n.farewelled s).session? s = some _ := session?_modify found
      have on' : (ses.notify { kind := .error, payload := Session.farewell }).notifyAll.outbound ≠
          .idle := by
        have same := (ses.steady_notify { kind := .error, payload := Session.farewell }).outbound
        exact fun idle => on (same.symm.trans idle)
      refine ⟨_, session?_closed told, rfl, closing_stop on', ?_, fun _ => ?_⟩
      · exact (ses.follows_notify _).trans (Session.follows_notifyAll _)
      · exact .after (ses.follows_notify _) (Session.told_notifyAll _)

theorem ended_stopInbound {n : Node} (h : n.Proper) {s : SessionId} {ses : Session}
    (found : n.session? s = some ses) (running : ses.inbound = .running) :
    Ended n s (n.stopInbound s) := by
  have on : ses.outbound ≠ .idle := (h.sessions s ses found).loops (running ▸ Loop.noConfusion)
  have found' := session?_modify (f := fun ses => { ses with inbound := .stopped }) found
  obtain ⟨calls, others, itself⟩ := ended_endSession found' on
  refine ⟨calls, fun t other => (others t other).trans ?_, fun ses' found'' => ?_⟩
  · rw [session?_modify_if, if_neg other]
  · cases Option.some.inj (found.symm.trans found'')
    exact itself { ses with inbound := .stopped } found'

theorem ended_stopOutbound {n : Node} {s : SessionId} {ses : Session}
    (found : n.session? s = some ses) (running : ses.outbound = .running)
    (rest : List Instruction) :
    Ended n s ((n.modify s fun ses => { ses with commands := rest }).stopOutbound s) := by
  have found' := session?_modify (f := fun ses => { ses with commands := rest }) found
  have on : ({ ses with commands := rest } : Session).outbound ≠ .idle := running ▸ Loop.noConfusion
  obtain ⟨calls, others, itself⟩ := ended_endSession found' on
  refine ⟨calls, fun t other => ?_, fun ses' found'' => ?_⟩
  · unfold stopOutbound
    rw [session?_modify_if, if_neg other, others t other, session?_modify_if, if_neg other]
  · cases Option.some.inj (found.symm.trans found'')
    obtain ⟨ses', there, ended, _, follows, told⟩ := itself _ found'
    exact ⟨_, session?_modify there, ended, .inl rfl, follows, told⟩

/-- Every deed ends no session, or one. -/
theorem calm_or_ended {n n' : Node} (h : n.Proper) (deed : Deed n n') :
    Calm n n' ∨ ∃ s ses, n.session? s = some ses ∧ Ended n s n' := by
  rcases steady_or_shift deed with steady | shift
  · exact .inl (calm_steady steady)
  · cases shift with
    | @register n' s ses m found created registered =>
      refine .inl (calm_setPhase Phase.noConfusion fun t other => ?_)
      rw [session?_modify_if, if_neg other, session?_register_other registered other]
    | @refuse n' s ses m e found created refused =>
      exact .inl (calm_setPhase Phase.noConfusion fun t other =>
        session?_register_other refused other)
    | deregister s => exact .inl (calm_deregister n s)
    | @getReady s ses m found established =>
      refine .inl (calm_setPhase Phase.noConfusion fun t other => ?_)
      rw [session?_modify_if, if_neg other]
    | stopInbound found running => exact .inr ⟨_, _, found, ended_stopInbound h found running⟩
    | stopOutbound found running rest =>
      exact .inr ⟨_, _, found, ended_stopOutbound found running rest⟩

/-! ## Sessions that have ended -/

def Closing (n : Node) : Prop :=
  ∀ s ses, n.session? s = some ses → ses.phase = .ended → ses.Closing

theorem closing_calm {n n' : Node} (h : n.Closing) (calm : Calm n n') : n'.Closing := by
  intro s ses' found' ended'
  obtain ⟨ses, found, ended, goes⟩ := calm s ses' found' ended'
  exact goes (h s ses found ended)

theorem closing_deed {n n' : Node} (proper : n.Proper) (h : n.Closing) (deed : Deed n n') :
    n'.Closing := by
  rcases calm_or_ended proper deed with calm | ⟨s, ses, found, ends⟩
  · exact closing_calm h calm
  · intro t ses' found' ended'
    by_cases same : s = t
    · subst same
      obtain ⟨ses'', there, _, closing, _⟩ := ends.itself ses found
      cases Option.some.inj (there.symm.trans found')
      exact closing
    · rw [ends.others t same] at found'
      exact h t ses' found' ended'

end Node

end ContractNode
