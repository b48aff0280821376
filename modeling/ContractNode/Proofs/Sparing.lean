import ContractNode.Proofs.Frame
import ContractNode.Proofs.Paging
import ContractNode.Proofs.Proper

/-!
# Moves that leave a cursor alone

A cursor of a context is read and closed by requests that name it, and closed when whoever waits for
the transaction is told something. Whatever else happens leaves it as it was.

* `Transactions.Spares`, `Node.Spares` : a context stays, and a cursor of it is left as it was;
* `Node.Tells` : whoever waits for the transaction of a context is told something;
* `spares_move` : a move leaves a cursor alone unless a worker takes up a request that names it,
  whoever waits is told, or another cursor is opened with its identifier.
-/

namespace ContractNode

def Request.cursor? : Request → Option String
  | .next r | .close r => some r.id
  | _ => none

namespace Transactions

variable {c : Nat} {id : String} {t t' t'' : Transactions}

/-- A context stays, and a cursor of it is left as it was. -/
def Spares (c : Nat) (id : String) (t t' : Transactions) : Prop :=
  ∀ ctx, t.context? c = some ctx →
    ∃ ctx', t'.context? c = some ctx' ∧ ctx.cursors.Keeps id ctx'.cursors

namespace Spares

theorem same (contexts : t'.contexts = t.contexts) : Spares c id t t' := by
  intro ctx known
  refine ⟨ctx, ?_, .refl _ id⟩
  unfold context?
  rwa [contexts]

theorem refl (t : Transactions) : Spares c id t t := same rfl

theorem trans (h : Spares c id t t') (h' : Spares c id t' t'') : Spares c id t t'' := by
  intro ctx known
  obtain ⟨ctx', known', keeps⟩ := h ctx known
  obtain ⟨ctx'', known'', keeps'⟩ := h' ctx' known'
  exact ⟨ctx'', known'', keeps.trans keeps'⟩

theorem modify (t : Transactions) (c' : Nat) {f : Context → Context}
    (keeps : c' = c → ∀ ctx, t.context? c = some ctx → ctx.cursors.Keeps id (f ctx).cursors) :
    Spares c id t (t.modify c' f) := by
  intro ctx known
  rw [context?_modify]
  split
  · rename_i same
    exact ⟨f ctx, by rw [known]; rfl, keeps same ctx known⟩
  · exact ⟨ctx, known, .refl _ id⟩

theorem bury (t : Transactions) (ctx : Context) : Spares c id t (t.bury ctx) :=
  fun ctx' known => ⟨ctx', t.context?_of_bury known, .refl _ id⟩

theorem enroll (t : Transactions) (ctx : Context) : Spares c id t (t.enroll ctx) :=
  fun ctx' known => ⟨ctx', t.context?_of_enroll known, .refl _ id⟩

end Spares

end Transactions

namespace Node

/-- A cursor that is opened on the way has the identifier. -/
def Opens (id : String) (n n' : Node) : Prop :=
  ∃ k, n.cursorCount ≤ k ∧ k < n'.cursorCount ∧ cursorId k = id

theorem Opens.mono {id : String} {n n₁ n₂ n' : Node} (h : Opens id n₁ n₂)
    (before : n.cursorCount ≤ n₁.cursorCount) (after : n₂.cursorCount ≤ n'.cursorCount) :
    Opens id n n' := by
  obtain ⟨k, from_, below, same⟩ := h
  exact ⟨k, Nat.le_trans before from_, Nat.lt_of_lt_of_le below after, same⟩

/-- A context of a session stays, and a cursor of it is left as it was, unless another one is opened
with the same identifier. -/
structure Spares (s : SessionId) (c : Nat) (id : String) (n n' : Node) : Prop where
  count : n.cursorCount ≤ n'.cursorCount
  session : ¬ Opens id n n' → ∀ ses, n.session? s = some ses →
    ∃ ses', n'.session? s = some ses' ∧ ses.transactions.Spares c id ses'.transactions

variable {s t : SessionId} {c : Nat} {id : String} {n n' n'' : Node}

namespace Spares

theorem outside (sessions : n'.sessions = n.sessions) (count : n.cursorCount ≤ n'.cursorCount) :
    Spares s c id n n' := by
  refine ⟨count, fun _ ses found => ⟨ses, ?_, .refl _⟩⟩
  unfold session?
  rwa [sessions]

theorem refl (n : Node) : Spares s c id n n := .outside rfl (Nat.le_refl _)

theorem trans (h : Spares s c id n n') (h' : Spares s c id n' n'') : Spares s c id n n'' := by
  refine ⟨Nat.le_trans h.count h'.count, fun fresh ses found => ?_⟩
  obtain ⟨ses', found', spares⟩ :=
    h.session (fun opens => fresh (opens.mono (Nat.le_refl _) h'.count)) ses found
  obtain ⟨ses'', found'', spares'⟩ :=
    h'.session (fun opens => fresh (opens.mono h.count (Nat.le_refl _))) ses' found'
  exact ⟨ses'', found'', spares.trans spares'⟩

theorem modify (n : Node) (t : SessionId) {f : Session → Session}
    (h : t = s → ∀ ses, n.session? s = some ses →
      ses.transactions.Spares c id (f ses).transactions) : Spares s c id n (n.modify t f) := by
  refine ⟨Nat.le_refl _, fun _ ses found => ?_⟩
  rw [session?_modify_if]
  split
  · rename_i same
    exact ⟨f ses, by rw [found]; rfl, h same ses found⟩
  · exact ⟨ses, found, .refl _⟩

theorem apart (n : Node) (t : SessionId) {f : Session → Session}
    (h : ∀ ses, (f ses).transactions.contexts = ses.transactions.contexts) :
    Spares s c id n (n.modify t f) := modify n t fun _ ses _ => .same (h ses)

theorem context (h : Spares s c id n n') (fresh : ¬ Opens id n n') {ctx : Context}
    (known : n.context? s c = some ctx) :
    ∃ ctx', n'.context? s c = some ctx' ∧ ctx.cursors.Keeps id ctx'.cursors := by
  obtain ⟨ses, found, known⟩ := context?_eq_some_iff.1 known
  obtain ⟨ses', found', spares⟩ := h.session fresh ses found
  obtain ⟨ctx', known', keeps⟩ := spares ctx known
  exact ⟨ctx', context?_eq_some_iff.2 ⟨ses', found', known'⟩, keeps⟩

end Spares

/-- A relation between nodes that are alike in their contexts holds between those that spare a
cursor. -/
theorem frame_spares : Frame (Spares s c id) where
  refl := .refl
  trans := .trans
  outside sessions _ count _ := .outside sessions count
  aside h := .modify _ _ fun same ses found => .same (h ses (same ▸ found)).contexts
  append blank := by
    refine ⟨Nat.le_refl _, fun _ ses found => ⟨ses, ?_, .refl _⟩⟩
    exact (List.getElem?_append_left (List.getElem?_eq_some_iff.1 found).1).trans found
  bury _ := .modify _ _ fun _ ses _ => .bury ses.transactions _
  enroll _ _ _ := .modify _ _ fun _ ses _ => .enroll ses.transactions _

/-! ## Telling -/

/-- A message is handed to whoever waits for another transaction. -/
theorem spares_notify (n : Node) (t : SessionId) {m : Message}
    (deaf : t = s → ∀ ses, n.session? s = some ses →
      ses.transactions.find? m.channel m.tx ≠ some c) :
    Spares s c id n (n.modify t (·.notify m)) := by
  refine .modify n t fun same ses found => ?_
  unfold Session.notify
  cases about : ses.transactions.find? m.channel m.tx with
  | none => exact .refl _
  | some c' =>
    refine .modify _ c' fun same' _ _ => absurd ?_ (deaf same ses found)
    rw [about, same']

/-- When a session ends that has not ended before, everybody who waits on it is told. -/
theorem spares_endSession (n : Node) (t : SessionId)
    (ended : t = s → ∀ ses, n.session? s = some ses → ses.phase = .ended) :
    Spares s c id n (n.endSession t) := by
  refine frame_spares.endSession fun ses found live => ?_
  have told : Spares s c id n (n.farewelled t) := .modify n t fun same ses' found' => by
    subst same
    cases Option.some.inj (found.symm.trans found')
    exact absurd (ended rfl ses found) live
  refine told.trans (frame_spares.deregister _ t |>.trans ?_)
  exact .apart _ t fun _ => rfl

theorem spares_stopInbound (n : Node) (t : SessionId)
    (ended : t = s → ∀ ses, n.session? s = some ses → ses.phase = .ended) :
    Spares s c id n (n.stopInbound t) := by
  have halted : Spares s c id n (n.modify t fun ses => { ses with inbound := .stopped }) :=
    .apart n t fun _ => rfl
  refine halted.trans (spares_endSession _ t fun same ses found => ?_)
  rw [session?_modify_if, if_pos same] at found
  obtain ⟨ses', found', rfl⟩ := Option.map_eq_some_iff.1 found
  exact ended same ses' found'

theorem spares_stopOutbound (n : Node) (t : SessionId)
    (ended : t = s → ∀ ses, n.session? s = some ses → ses.phase = .ended) :
    Spares s c id n (n.stopOutbound t) :=
  (spares_endSession n t ended).trans (.apart _ t fun _ => rfl)

/-! ## Executions -/

theorem spares_released (n : Node) (call : Call) (ctx : Context) {f : Context → Context}
    (keeps : call.session = s → call.context = c →
      ∀ ctx : Context, ctx.cursors.Keeps id (f ctx).cursors) :
    Spares s c id n (n.released call ctx f) := by
  have changed : Spares s c id n (n.modify call.session fun ses =>
      { ses with
        transactions := (ses.transactions.modify call.context f).delete ctx.channel ctx.tx }) := by
    refine .modify n call.session fun same ses _ => ?_
    exact (Transactions.Spares.modify ses.transactions call.context fun same' ctx _ =>
      keeps same same' ctx).trans (.same rfl)
  exact changed.trans (.outside rfl (Nat.le_refl _))

theorem spares_finish? {call : Call} (finished : n.finish? call = some n') :
    Spares s c id n n' := by
  obtain ⟨ctx, m, _, _, rfl⟩ := finish?_cases finished
  have released := spares_released (s := s) (c := c)
    (f := fun c => { c with slot := c.slot.drop }) n call ctx fun _ _ ctx => .refl ctx.cursors id
  exact released.trans (frame_spares.deliver fun _ _ => .outside rfl (Nat.le_refl _))

/-- An execution that runs out of time closes the cursors of its context, which is not registered
any more. -/
theorem spares_expire (sound : n.Sound) (call : Call) (kept : (n.expire call).Registers s c) :
    Spares s c id n (n.expire call) := by
  rcases n.expire_cases call with ⟨_, expired⟩ | ⟨ctx, known, expired⟩
  · rw [expired]
    exact .outside rfl (Nat.le_refl _)
  · rw [expired] at kept ⊢
    refine (spares_released n call ctx fun same same' => ?_).trans (frame_spares.deliver_error ..)
    subst same same'
    intro ctx'
    obtain ⟨ses', k, found', registered⟩ := kept
    obtain ⟨ses, found, known⟩ := context?_eq_some_iff.1 known
    have released : (n.released call ctx fun c =>
        { c.closeCursors with slot := c.slot.drop }).session? call.session = some _ :=
      session?_modify found
    obtain ⟨ses'', found'', follows⟩ :=
      (touches_deliver _ call.origin (.error (.timeout ctx.tx))).sessions _ _ released
    cases Option.some.inj (found'.symm.trans found'')
    rw [follows.index] at registered
    change (ses.transactions.index.erase ctx.key).get? k = some call.context at registered
    rw [KeyMap.get?_erase] at registered
    split at registered
    · cases registered
    · rename_i other
      obtain ⟨ctx', known', own⟩ := (sound.transactions _ ses found).indexed k _ registered
      cases Option.some.inj (known.symm.trans known')
      exact absurd own other

/-! ## Requests -/

theorem spares_cursors {c' : Nat} {ctx : Context} (known : n.context? t c' = some ctx)
    {u : CursorTable Scan} (keeps : t = s → c' = c → ctx.cursors.Keeps id u) :
    Spares s c id n (n.modifyCursors t c' u) := by
  obtain ⟨ses, found, known⟩ := context?_eq_some_iff.1 known
  refine .modify n t fun same ses' found' => ?_
  subst same
  cases Option.some.inj (found.symm.trans found')
  refine Transactions.Spares.modify ses.transactions c' fun same' ctx' known' => ?_
  subst same'
  cases Option.some.inj (known.symm.trans known')
  exact keeps rfl rfl

/-- A request that lands in another context, or does not name a cursor, leaves it alone. -/
theorem spares_turning {c' : Nat} {ctx : Context} {r : Request}
    (known : n.context? t c' = some ctx) (turning : Turning n t c' ctx r n')
    (unread : t = s → c' = c → r.cursor? ≠ some id) : Spares s c id n n' := by
  cases turning with
  | opens max scan =>
    refine ⟨Nat.le_succ _, fun fresh => ?_⟩
    have other : cursorId n.cursorCount ≠ id :=
      fun same => fresh ⟨n.cursorCount, Nat.le_refl _, Nat.lt_succ_self _, same⟩
    have opened : Spares s c id n (n.modifyCursors t c'
        (ctx.cursors.openCursor max (cursorId n.cursorCount) scan).2) :=
      spares_cursors known fun _ _ => .openCursor other max scan
    exact opened.session fun ⟨_, from_, below, _⟩ => absurd below (Nat.not_lt.2 from_)
  | advances max q =>
    have other (same : t = s) (same' : c' = c) : q.id ≠ id :=
      fun named => unread same same' (congrArg some named)
    exact spares_cursors known fun same same' => .advance (other same same') _
  | closes q =>
    have other (same : t = s) (same' : c' = c) : q.id ≠ id :=
      fun named => unread same same' (congrArg some named)
    exact spares_cursors known fun same same' => .close (other same same')

/-! ## Messages that are shown -/

theorem spares_handle {m : Message}
    (deaf : t = s → ∀ ses, n.session? s = some ses →
      ses.transactions.find? m.channel m.tx = some c → ses.phase.hands m = false) :
    Spares s c id n (n.handle t m) := by
  refine frame_spares.handle fun ses found hands => ?_
  refine spares_notify n t fun same ses' found' about => ?_
  subst same
  cases Option.some.inj (found.symm.trans found')
  rw [deaf rfl ses found about] at hands
  cases hands

/-! ## Turns -/

/-- Whoever waits for the transaction of a context is told something: somebody from outside hands
the session a message for it, or the session is shown one that it hands on, or the session ends. -/
inductive Tells (s : SessionId) (c : Nat) (n : Node) : Node → Prop
  | handed {ses : Session} (m : Message) (found : n.session? s = some ses)
      (about : ses.transactions.find? m.channel m.tx = some c) : Tells s c n (n.act (.notify s m))
  | shown {n' : Node} {ses : Session} {m : Message} (shows : Shows s m n n')
      (found : n.session? s = some ses) (about : ses.transactions.find? m.channel m.tx = some c)
      (hands : ses.phase.hands m = true) : Tells s c n n'
  | ended {n' : Node} {ses ses' : Session} (found : n.session? s = some ses)
      (live : ses.phase ≠ .ended) (found' : n'.session? s = some ses')
      (ended : ses'.phase = .ended) : Tells s c n n'

section Turns

variable {ses ses₁ : Session} {n₁ : Node}

/-- A session that ends on the way has ended before, since nobody is told. -/
theorem ended_of_untold (untold : ¬ Tells s c n n') (found : n.session? t = some ses)
    (found₁ : n₁.session? t = some ses₁) (kept : ses.phase = .ended → ses₁.phase = .ended)
    (ended : ∃ ses', n'.session? t = some ses' ∧ ses'.phase = .ended) (same : t = s)
    (ses' : Session) (there : n₁.session? s = some ses') : ses'.phase = .ended := by
  subst same
  cases Option.some.inj (found₁.symm.trans there)
  obtain ⟨ses', found', ended⟩ := ended
  exact kept (Decidable.byContradiction fun live => untold (.ended found live found' ended))

theorem spares_halt (untold : ¬ Tells s c n n') (found : n.session? t = some ses)
    (found₁ : n₁.session? t = some ses₁) (kept : ses.phase = .ended → ses₁.phase = .ended)
    (stops : n₁.stopInbound t = n') : Spares s c id n₁ n' := by
  subst stops
  exact spares_stopInbound n₁ t
    (ended_of_untold untold found found₁ kept (session?_endSession (session?_modify found₁)))

theorem spares_quit (untold : ¬ Tells s c n n') (found : n.session? t = some ses)
    (found₁ : n₁.session? t = some ses₁) (kept : ses.phase = .ended → ses₁.phase = .ended)
    (stops : n₁.stopOutbound t = n') : Spares s c id n₁ n' := by
  subst stops
  obtain ⟨ses', found', ended⟩ := session?_endSession found₁
  exact spares_stopOutbound n₁ t
    (ended_of_untold untold found found₁ kept ⟨_, session?_modify found', ended⟩)

theorem handle_of_ended (m : Message) (found : n.session? s = some ses)
    (ended : ses.phase = .ended) :
    n.handle s m = n := by
  have early {ses' : Session} {phase : Phase} (found' : n.session? s = some ses')
      (there : ses'.phase = phase) (live : phase ≠ .ended) : False := by
    cases Option.some.inj (found.symm.trans found')
    exact live (there.symm.trans ended)
  have handled := handled_handle n s m
  generalize n.handle s m = n' at handled ⊢
  cases handled with
  | missing | ignored => rfl
  | passes found' passes =>
    simp only [bypasses, Bool.and_eq_true, beq_iff_eq] at passes
    exact (early found' passes.1 Phase.noConfusion).elim
  | registers found' there | refused found' there | readies found' there | calls found' there
  | submits found' there => exact (early found' there Phase.noConfusion).elim

theorem spares_arrive {m : Message}
    (deaf : t = s → ∀ ses, n.session? s = some ses →
      ses.transactions.find? m.channel m.tx = some c → ses.phase.hands m = false) :
    Spares s c id n (n.arrive t m) := by
  unfold arrive
  split
  · exact .refl n
  · have handled : Spares s c id n (n.handle t m) := spares_handle deaf
    simp only
    split
    · rename_i ended
      obtain ⟨ses, found, ended⟩ := (Option.any_eq_true ..).1 ended
      refine handled.trans (spares_stopInbound _ t fun same ses' found' => ?_)
      rw [← same] at found'
      cases Option.some.inj (found.symm.trans found')
      exact beq_iff_eq.1 ended
    · exact handled

theorem spares_receive? (took : n.receive? t = some n') (untold : ¬ Tells s c n n') :
    Spares s c id n n' := by
  have turn := took
  unfold receive? at took
  split at took
  · cases took
  · rename_i ses found
    split at took
    · rename_i running
      split at took
      · cases took
      · exact spares_halt untold found found (fun ended => ended) (Option.some.inj took)
      all_goals
        rename_i inbox taken
        have taking : Spares s c id n (n.modify t (·.withInbox inbox)) := .apart n t fun _ => rfl
        have found₁ := session?_modify (f := (·.withInbox inbox)) found
      · exact taking.trans
          (spares_halt untold found found₁ (fun ended => ended) (Option.some.inj took))
      · rename_i m _
        refine taking.trans ?_
        rw [← Option.some.inj took]
        refine spares_arrive ?_
        rintro rfl ses' found' about
        cases Option.some.inj (found₁.symm.trans found')
        refine Bool.eq_false_iff.2 fun hands => untold ?_
        exact .shown (.received found running taken turn) found about hands
    · cases took

theorem spares_carryOut {c' : Command} {rest : List Instruction} (untold : ¬ Tells s c n n')
    (found : n.session? t = some ses)
    (deaf : t = s → ∀ ses, n.session? s = some ses →
      ses.transactions.find? c'.message.channel c'.message.tx = some c →
        ses.phase.hands c'.message = false)
    (took : (n.modify t fun ses => { ses with commands := rest }).carryOut t c' = n') :
    Spares s c id n n' := by
  have taking : Spares s c id n (n.modify t fun ses => { ses with commands := rest }) :=
    .apart n t fun _ => rfl
  have found₁ := session?_modify (f := fun ses => { ses with commands := rest }) found
  have handled : Spares s c id (n.modify t fun ses => { ses with commands := rest })
      ((n.modify t fun ses => { ses with commands := rest }).handle t c'.message) := by
    refine spares_handle fun same ses' found' about => ?_
    subst same
    cases Option.some.inj (found₁.symm.trans found')
    exact deaf rfl ses found about
  have shown := taking.trans handled
  obtain ⟨ses₂, found₂, _⟩ := loops_handle c'.message found₁
  have kept (ended : ses.phase = .ended) : ses₂.phase = .ended := by
    rw [handle_of_ended c'.message found₁ ended] at found₂
    cases Option.some.inj (found₁.symm.trans found₂)
    exact ended
  unfold carryOut at took
  simp only at took
  split at took
  · split at took
    · rename_i sync
      rcases sendNow_cases ((n.modify t fun ses => { ses with commands := rest }).handle t c'.message)
        t c'.message with sent | ⟨_, _, _, _, sent⟩
      · rw [sent] at took
        exact shown.trans (spares_quit untold found found₂ kept took)
      · rw [sent] at took
        subst took
        exact shown.trans (.apart _ t fun _ => rfl)
    · subst took
      refine shown.trans (.modify _ t fun _ ses _ => .same ?_)
      rw [(ses.talks_sendAnyway _).transactions]
  · subst took
    exact shown

theorem spares_command? (took : n.command? t = some n') (untold : ¬ Tells s c n n') :
    Spares s c id n n' := by
  have turn := took
  unfold command? at took
  split at took
  · cases took
  · rename_i ses found
    split at took
    · rename_i running
      split at took
      · cases took
      · rename_i rest queued
        have taking : Spares s c id n (n.modify t fun ses => { ses with commands := rest }) :=
          .apart n t fun _ => rfl
        have found₁ := session?_modify (f := fun ses => { ses with commands := rest }) found
        exact taking.trans
          (spares_quit untold found found₁ (fun ended => ended) (Option.some.inj took))
      · rename_i c' rest queued
        refine spares_carryOut untold found ?_ (Option.some.inj took)
        rintro rfl ses' found' about
        cases Option.some.inj (found.symm.trans found')
        refine Bool.eq_false_iff.2 fun hands => untold ?_
        exact .shown (.triggered found running queued rfl turn) found about hands
    · cases took

theorem spares_work? (took : n.work? t = some n')
    (unread : ∀ job r, Takes s c job r n n' → r.cursor? ≠ some id) : Spares s c id n n' := by
  refine frame_spares.work? took fun job c' ctx r n₁ n₂ takes _ known turning => ?_
  refine spares_turning known turning ?_
  rintro rfl rfl
  exact unread job r takes

end Turns

/-! ## Moves -/

theorem spares_act (n : Node) {a : Act} (once : ∀ span, a ≠ .pass span)
    (untold : ¬ Tells s c n (n.act a)) : Spares s c id n (n.act a) := by
  cases aside : a.isAside with
  | true => exact frame_spares.act n aside
  | false =>
    cases a with
    | handle t m =>
      refine spares_handle ?_
      rintro rfl ses found about
      exact Bool.eq_false_iff.2 fun hands => untold (.shown .handed found about hands)
    | notify t m =>
      refine spares_notify n t ?_
      rintro rfl ses found about
      exact untold (.handed m found about)
    | poll t c' =>
      show Spares s c id n (n.poll t c').2
      rcases n.poll_cases t c' with ⟨_, polls⟩ | ⟨ctx, _, polls⟩
      · rw [polls]
        exact .refl n
      · rw [polls]
        exact .modify n t fun _ ses _ => .modify ses.transactions c' fun _ ctx _ => .refl _ id
    | deleteContext t channel tx => exact .apart n t fun _ => rfl
    | pass span => exact absurd rfl (once span)
    | _ => cases aside

/-- A move leaves a cursor alone while its context stays registered, unless a worker takes up a
request in the context that names the cursor, or whoever waits for the transaction is told. -/
theorem spares_move {P : Act → Prop} (sound : n.Sound) (move : Move P n n')
    (kept : n'.Registers s c) (untold : ¬ Tells s c n n')
    (unread : ∀ job r, Takes s c job r n n' → r.cursor? ≠ some id) : Spares s c id n n' := by
  cases move with
  | act a given once => exact spares_act n once untold
  | finish waits finished => exact spares_finish? finished
  | command took => exact spares_command? took untold
  | work took => exact spares_work? took unread
  | dial => exact frame_spares.dial ..
  | resume took => exact frame_spares.resume? took
  | receive took => exact spares_receive? took untold
  | expire waits => exact spares_expire sound _ kept
  | tick clock => exact .outside rfl (Nat.le_refl _)

end Node

end ContractNode
