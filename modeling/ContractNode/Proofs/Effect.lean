import ContractNode.Proofs.Cursors
import ContractNode.Proofs.Path

/-!
# What deeds do to transactions

Seen from the transactions of the sessions and from the executions that wait, a deed does one of
three things: it touches contexts, it begins an execution, or it ends one.

* `Context.Follows`, `Transactions.Follows` : a context that goes on, and contexts that all do;
* `Node.Touches` : the contexts of all sessions go on, and the same executions wait;
* `deed_cases`, `effect_of_deed` : every deed is one of the three.
-/

namespace ContractNode

/-- What is settled about a context when it is made. -/
def Context.badge (c : Context) :
    String × String × Option Simulator × Option Historian × Option SignedProposal × Option Proposal :=
  (c.channel, c.tx, c.simulator, c.historian, c.signedProposal, c.proposal)

theorem Context.key_of_badge {c c' : Context} (h : c'.badge = c.badge) : c'.key = c.key := by
  simp only [badge, Prod.mk.injEq] at h
  simp only [Context.key, h.1, h.2.1]

/-- A context goes on: it keeps its badge, whoever holds its slot still does, and a message that was
put there still is. -/
structure Context.Follows (c c' : Context) : Prop where
  badge : c'.badge = c.badge
  receiver : c'.slot.receiver = c.slot.receiver
  message : ∀ m, c.slot.message = some m → c'.slot.message = some m
  cursors : c.cursors.Once → c'.cursors.Once

namespace Context.Follows

theorem refl (c : Context) : c.Follows c := ⟨rfl, rfl, fun _ h => h, fun h => h⟩

theorem trans {c c' c'' : Context} (h : c.Follows c') (h' : c'.Follows c'') : c.Follows c'' :=
  ⟨h'.badge.trans h.badge, h'.receiver.trans h.receiver,
    fun m held => h'.message m (h.message m held), fun once => h'.cursors (h.cursors once)⟩

theorem notify (c : Context) (m : Message) : c.Follows (c.notify m) := by
  refine ⟨rfl, Slot.receiver_notify c.slot m, fun m' held => ?_, CursorTable.once_closeAll⟩
  show (c.slot.notify m).2.message = some m'
  rw [Slot.message_notify, if_neg]
  · exact held
  · simp [Slot.isFree, held]

theorem replaced (c : Context) {t : CursorTable Scan} (h : c.cursors.Once → t.Once) :
    c.Follows { c with cursors := t } :=
  ⟨rfl, rfl, fun _ held => held, h⟩

end Context.Follows

namespace Transactions

def Clean (t : Transactions) : Prop := ∀ c ctx, t.context? c = some ctx → ctx.cursors.Once

/-- Contexts that all go on, under the same index. -/
structure Follows (t t' : Transactions) : Prop where
  index : t'.index = t.index
  contexts : ∀ c ctx, t.context? c = some ctx → ∃ ctx', t'.context? c = some ctx' ∧ ctx.Follows ctx'
  clean : t.Clean → t'.Clean

theorem context?_modify (t : Transactions) (c c' : Nat) (f : Context → Context) :
    (t.modify c f).context? c' = if c = c' then (t.context? c').map f else t.context? c' := by
  simp only [context?, modify, List.getElem?_modify]
  split <;> simp

theorem context?_bury (t : Transactions) {c' : Nat} {ctx ctx' : Context}
    (h : (t.bury ctx).context? c' = some ctx') :
    t.context? c' = some ctx' ∨ c' = t.contexts.length ∧ ctx' = ctx := by
  unfold context? bury at h
  rw [List.getElem?_append] at h
  split at h
  · exact .inl h
  · rw [List.getElem?_singleton] at h
    split at h
    · cases h
      exact .inr ⟨by omega, rfl⟩
    · cases h

theorem context?_of_bury (t : Transactions) {c : Nat} {ctx ctx' : Context}
    (h : t.context? c = some ctx) : (t.bury ctx').context? c = some ctx :=
  (List.getElem?_append_left (List.getElem?_eq_some_iff.1 h).1).trans h

namespace Follows

theorem refl (t : Transactions) : t.Follows t :=
  ⟨rfl, fun _ ctx h => ⟨ctx, h, .refl ctx⟩, fun h => h⟩

theorem trans {t t' t'' : Transactions} (h : t.Follows t') (h' : t'.Follows t'') : t.Follows t'' := by
  refine ⟨h'.index.trans h.index, fun c ctx known => ?_, fun clean => h'.clean (h.clean clean)⟩
  obtain ⟨ctx', known', follows⟩ := h.contexts c ctx known
  obtain ⟨ctx'', known'', follows'⟩ := h'.contexts c ctx' known'
  exact ⟨ctx'', known'', follows.trans follows'⟩

theorem modify (t : Transactions) (c : Nat) {f : Context → Context}
    (h : ∀ ctx, t.context? c = some ctx → ctx.Follows (f ctx)) : t.Follows (t.modify c f) := by
  refine ⟨rfl, fun c' ctx known => ?_, fun clean c' ctx known => ?_⟩
  · by_cases same : c = c'
    · subst same
      exact ⟨f ctx, by rw [context?_modify, if_pos rfl, known]; rfl, h ctx known⟩
    · exact ⟨ctx, by rw [context?_modify, if_neg same, known], .refl ctx⟩
  · rw [context?_modify] at known
    split at known
    · rename_i same
      subst same
      obtain ⟨ctx', known', rfl⟩ := Option.map_eq_some_iff.1 known
      exact (h ctx' known').cursors (clean c ctx' known')
    · exact clean c' ctx known

theorem marked (t : Transactions) (markers : List String) : t.Follows { t with markers } :=
  ⟨rfl, fun _ ctx h => ⟨ctx, h, .refl ctx⟩, fun h => h⟩

theorem bury (t : Transactions) {c : Context} (given : c.cursors.Once) : t.Follows (t.bury c) := by
  refine ⟨rfl, fun c' ctx known => ⟨ctx, t.context?_of_bury known, .refl ctx⟩,
    fun clean c' ctx known => ?_⟩
  rcases t.context?_bury known with known | ⟨_, rfl⟩
  · exact clean c' ctx known
  · exact given

end Follows

end Transactions

theorem Session.follows_notify (ses : Session) (m : Message) :
    ses.transactions.Follows (ses.notify m).transactions := by
  unfold notify
  split
  · exact .refl _
  · exact .modify _ _ fun ctx _ => .notify ctx m

theorem Transactions.follows_foldl {f : Context → Context} (h : ∀ ctx : Context, ctx.Follows (f ctx))
    (l : List Nat) (t : Transactions) : t.Follows (l.foldl (fun t c => t.modify c f) t) := by
  induction l generalizing t with
  | nil => exact .refl t
  | cons c l ih => exact (Transactions.Follows.modify t c fun ctx _ => h ctx).trans (ih _)

theorem Session.follows_notifyAll (ses : Session) :
    ses.transactions.Follows ses.notifyAll.transactions :=
  Transactions.follows_foldl (fun ctx => .notify ctx _) ses.transactions.registered ses.transactions

namespace Node

/-- The contexts of all sessions go on, under the same indexes, and the same executions wait. A
session that is new has none registered. -/
structure Touches (n n' : Node) : Prop where
  calls : n'.calls = n.calls
  sessions : ∀ s ses, n.session? s = some ses →
    ∃ ses', n'.session? s = some ses' ∧ ses.transactions.Follows ses'.transactions
  fresh : ∀ s ses', n.session? s = none → n'.session? s = some ses' →
    ({} : Transactions).Follows ses'.transactions

namespace Touches

theorem refl (n : Node) : Touches n n :=
  ⟨rfl, fun _ ses h => ⟨ses, h, .refl _⟩, fun _ _ none found => by rw [none] at found; cases found⟩

theorem trans {n n' n'' : Node} (h : Touches n n') (h' : Touches n' n'') : Touches n n'' := by
  refine ⟨h'.calls.trans h.calls, fun s ses found => ?_, fun s ses'' none found'' => ?_⟩
  · obtain ⟨ses', found', follows⟩ := h.sessions s ses found
    obtain ⟨ses'', found'', follows'⟩ := h'.sessions s ses' found'
    exact ⟨ses'', found'', follows.trans follows'⟩
  · cases found' : n'.session? s with
    | none => exact h'.fresh s ses'' found' found''
    | some ses' =>
      obtain ⟨_, same, follows⟩ := h'.sessions s ses' found'
      cases Option.some.inj (found''.symm.trans same)
      exact (h.fresh s ses' none found').trans follows

/-- A session that goes on after `Touches`, or is new, comes from one that did. -/
theorem session {n n' : Node} (h : Touches n n') {s : SessionId} {ses' : Session}
    (found' : n'.session? s = some ses') :
    ((n.session? s).elim {} (·.transactions)).Follows ses'.transactions := by
  cases found : n.session? s with
  | none => exact h.fresh s ses' found found'
  | some ses =>
    obtain ⟨_, same, follows⟩ := h.sessions s ses found
    cases Option.some.inj (found'.symm.trans same)
    exact follows

theorem modify {n : Node} (s : SessionId) {f : Session → Session}
    (h : ∀ ses, n.session? s = some ses → ses.transactions.Follows (f ses).transactions) :
    Touches n (n.modify s f) := by
  refine ⟨rfl, fun t ses found => ?_, fun t ses' none found => ?_⟩
  · rw [session?_modify_if]
    by_cases same : s = t
    · subst same
      exact ⟨f ses, by simp [found], h ses found⟩
    · exact ⟨ses, by simp [same, found], .refl _⟩
  · rw [session?_modify_if, none] at found
    simp at found

theorem apart {n : Node} (s : SessionId) {f : Session → Session}
    (h : ∀ ses, (f ses).transactions = ses.transactions) : Touches n (n.modify s f) :=
  modify s fun ses _ => h ses ▸ .refl _

theorem outside {n n' : Node} (sessions : n'.sessions = n.sessions) (calls : n'.calls = n.calls) :
    Touches n n' := by
  have same (s : SessionId) : n'.session? s = n.session? s := by
    unfold session?
    rw [sessions]
  exact ⟨calls, fun s ses found => ⟨ses, (same s).trans found, .refl _⟩,
    fun s ses' none found => by rw [same s, none] at found; cases found⟩

end Touches

/-! ## Messages and registration -/

theorem touches_setPhase (n : Node) (s : SessionId) (phase : Phase) :
    Touches n (n.setPhase s phase) := .apart s fun _ => rfl

theorem touches_talks {n n' : Node} {s : SessionId} (talks : n.Talks s n') : Touches n n' := by
  cases talks with
  | intro talks =>
    refine .modify s fun ses found => ?_
    rw [(talks ses found).transactions]
    exact .refl _

theorem touches_deregister (n : Node) (s : SessionId) : Touches n (n.deregister s) := by
  obtain ⟨directory, left⟩ := n.deregister_eq s
  have off : Touches n (n.modify s fun ses => { ses with isRegistered := false }) :=
    .apart s fun _ => rfl
  rw [left]
  exact off.trans (.outside rfl rfl)

theorem touches_listed (n : Node) (s : SessionId) (id : ContractId) (d : Directory) :
    Touches n (n.listed s id d) := by
  have listed : Touches n { n with directory := d } := .outside rfl rfl
  exact listed.trans (.apart s fun _ => rfl)

theorem touches_register (n : Node) (s : SessionId) (m : Message) :
    Touches n (n.register s m).2 := by
  have registering := registering_register n s m
  generalize n.register s m = r at registering ⊢
  obtain ⟨outcome, n'⟩ := r
  cases registering with
  | refused e => exact .refl _
  | unsent e free given =>
    rw [given]
    exact (touches_listed ..).trans (touches_deregister ..)
  | told link free sent =>
    rw [sent]
    exact (touches_listed ..).trans (.apart s fun _ => rfl)

theorem touches_chore {n n' : Node} (h : Chore n n') : Touches n n' := by
  cases h with
  | receive | send | enqueue | dequeue | submit | spawn | pickUp | take | free =>
    exact .apart _ fun _ => rfl
  | @register n' s ses m found created registered =>
    have kept := touches_register n s m
    rw [registered] at kept
    have announced := kept.trans (.apart s fun ses => ses.talks_announce.transactions)
    exact announced.trans (touches_setPhase ..)
  | @refuse n' s ses m e found created refused =>
    have kept := touches_register n s m
    rw [refused] at kept
    exact kept.trans (touches_setPhase ..)
  | deregister s => exact touches_deregister n s
  | write | tick => exact .outside rfl rfl

/-! ## The end of a session -/

theorem touches_closed (n : Node) (s : SessionId) : Touches n (n.closed s) :=
  (touches_deregister n s).trans (.apart s fun _ => rfl)

theorem touches_endSession (n : Node) (s : SessionId) : Touches n (n.endSession s) := by
  cases found : n.session? s with
  | none =>
    simp only [endSession, found]
    exact .refl n
  | some ses =>
    rw [endSession_eq found]
    split
    · exact touches_closed n s
    · have told : Touches n (n.farewelled s) :=
        .modify s fun ses _ => (Session.follows_notify ..).trans (Session.follows_notifyAll _)
      exact told.trans (touches_closed ..)

theorem touches_stopOutbound (n : Node) (s : SessionId) : Touches n (n.stopOutbound s) :=
  (touches_endSession n s).trans (.apart s fun _ => rfl)

/-! ## Answers -/

theorem touches_answer (n : Node) (s : SessionId) (job : Job)
    (result : Except SessionError Bytes) : Touches n (n.answer s job result) := by
  rw [answer_eq]
  refine .modify s fun ses _ => ?_
  rw [(Session.talks_reply _ job.kind _).transactions]
  exact .marked ses.transactions _

theorem touches_deliver (n : Node) (origin : Origin) (result : Except SessionError Message) :
    Touches n (n.deliver origin result) := by
  cases origin with
  | caller label => exact .outside rfl rfl
  | request s c m =>
    unfold deliver
    exact touches_answer ..

theorem touches_cursors {n : Node} {s : SessionId} {ses : Session} {c : Nat} {ctx : Context}
    (found : n.session? s = some ses) (known : ses.transactions.context? c = some ctx)
    {t : CursorTable Scan} (h : ctx.cursors.Once → t.Once) : Touches n (n.modifyCursors s c t) := by
  refine .modify s fun ses' found' => .modify _ c fun ctx' known' => ?_
  cases Option.some.inj (found.symm.trans found')
  cases Option.some.inj (known.symm.trans known')
  exact .replaced ctx h

/-! ## Deeds -/

/-- What a deed does, as far as transactions and executions are concerned. -/
inductive Effect : Node → Node → Prop
  | touch {n n' : Node} (touches : Touches n n') : Effect n n'
  | begin {n : Node} {s t : SessionId} {ses ses' : Session} {ctx c' : Context} {c : Nat}
      {m m' : Message} {spec : CallSpec} {rights : Simulator × Option Historian}
      (found : n.session? s = some ses)
      (registered : ses.transactions.find? m.channel m.tx = some c)
      (known : ses.transactions.context? c = some ctx)
      (righted : n.callRights ctx (spec.target ctx.channel) = .ok rights)
      (resolved : n.directory.resolve (spec.target ctx.channel) = .ok t)
      (made : called (invocation ctx spec rights) = .ok (m', c'))
      (found' : (n.modify s (·.claim m.key)).session? t = some ses')
      (fresh : ses'.transactions.index.get? c'.key = none) (on : ses'.outbound ≠ .stopped) :
      Effect n ((n.modify s (·.claim m.key)).began t ses' c' m' (.request s c m))
  | release {n n' : Node} {call : Call} {ctx : Context} {f : Context → Context}
      (waits : call ∈ n.calls) (known : n.context? call.session call.context = some ctx)
      (badge : ∀ ctx, (f ctx).badge = ctx.badge)
      (once : ∀ ctx, ctx.cursors.Once → (f ctx).cursors.Once)
      (touches : Touches (n.released call ctx f) n') : Effect n n'
  | forget {n : Node} {call : Call} (waits : call ∈ n.calls)
      (unknown : n.context? call.session call.context = none) : Effect n (n.forget call)

/-- Every deed touches contexts, or begins an execution, or an execution waits no longer. -/
theorem deed_cases {n n' : Node} (h : Deed n n') :
    Touches n n' ∨ (∃ w, n'.calls = n.calls ++ [w] ∧ Effect n n') ∨
      ∃ call ∈ n.calls, n.finish? call = some n' ∨ n' = n.expire call := by
  cases h with
  | chore done => exact .inl (touches_chore done)
  | notify s m => exact .inl (.modify s fun ses _ => ses.follows_notify m)
  | @getReady s ses m found established =>
    have told : Touches n (n.modify s (·.notify m)) := .modify s fun ses _ => ses.follows_notify m
    exact .inl (told.trans (touches_setPhase ..))
  | @stopInbound s =>
    have halted : Touches n (n.modify s fun ses => { ses with inbound := .stopped }) :=
      .apart s fun _ => rfl
    exact .inl (halted.trans (touches_endSession ..))
  | @stopOutbound s => exact .inl (touches_stopOutbound n s)
  | @shutdown s ses rest =>
    have took : Touches n (n.modify s fun ses => { ses with commands := rest }) :=
      .apart s fun _ => rfl
    exact .inl (took.trans (touches_stopOutbound ..))
  | @openCursor _ ses _ _ _ _ scan found registered known =>
    have kept := touches_cursors found known fun once =>
      CursorTable.once_openCursor once ses.config.maxBatch (cursorId n.cursorCount) scan
    exact .inl (kept.trans (.outside rfl rfl))
  | advance id found registered known =>
    exact .inl (touches_cursors found known fun once => CursorTable.once_advance once ..)
  | closeCursor id found registered known =>
    exact .inl (touches_cursors found known fun once => CursorTable.once_close once ..)
  | bury c found stopped fresh given =>
    exact .inl (.modify _ fun ses _ => .bury _ (given ▸ CursorTable.once_empty))
  | park | unpark =>
    exact .inl (.modify _ fun ses _ => .marked ses.transactions _)
  | call found free registered known righted resolved begun =>
    rcases beginCall_cases begun with ⟨e, failed, _⟩ | ⟨m', c', made, comes⟩
    · cases failed
    · cases comes with
      | waits found' fresh on =>
        exact .inr (.inl ⟨_, rfl, .begin found registered known righted resolved made found' fresh on⟩)
  | finish waits finished => exact .inr (.inr ⟨_, waits, .inl finished⟩)
  | expire waits => exact .inr (.inr ⟨_, waits, .inr rfl⟩)

theorem effect_of_deed {n n' : Node} (h : Deed n n') : Effect n n' := by
  rcases deed_cases h with touches | ⟨_, _, begins⟩ | ⟨call, waits, finished | rfl⟩
  · exact .touch touches
  · exact begins
  · obtain ⟨ctx, m, known, _, rfl⟩ := finish?_cases finished
    exact .release (f := fun c => { c with slot := c.slot.drop }) waits known (fun _ => rfl)
      (fun _ once => once) (touches_deliver ..)
  · rcases n.expire_cases call with ⟨unknown, expired⟩ | ⟨ctx, known, expired⟩
    · rw [expired]
      exact .forget waits unknown
    · rw [expired]
      exact .release (f := fun c => { c.closeCursors with slot := c.slot.drop }) waits known
        (fun _ => rfl) (fun _ once => CursorTable.once_closeAll once) (touches_deliver ..)

end Node

end ContractNode
