import ContractNode.Proofs.Underway

/-!
# What leaves no cursor open

A transaction is over for its context when the session has ended, when the context is not registered
any more, and while whoever waits has been told something but has not heard it. Most of what a node
does opens no cursor, and lets no transaction be over that has one open.

* `Session.Over`, `Session.Reads` : a transaction is over, and a cursor of a context is open;
* `Session.Tight`, `Node.Tight` : no cursor is opened and no transaction with open cursors is over
  that was not before, except for some contexts;
* `telling_tight`, `tight_work?` : what nodes do is like that, except for the context of a request.
-/

namespace ContractNode

/-! ## Sessions -/

namespace Session

/-- A transaction is over for its context. -/
def Over (ses : Session) (c : Nat) : Prop :=
  ∃ ctx, ses.transactions.context? c = some ctx ∧
    (ses.phase = .ended ∨ c ∉ ses.transactions.registered ∨ ctx.slot.message ≠ none)

def Reads (ses : Session) (c : Nat) (id : String) : Prop :=
  ∃ ctx cursor, ses.transactions.context? c = some ctx ∧ ctx.cursors.cursors.get? id = some cursor

instance (ses : Session) (c : Nat) : Decidable (ses.Over c) :=
  decidable_of_iff (∃ ctx ∈ ses.transactions.context? c,
      ses.phase = .ended ∨ c ∉ ses.transactions.registered ∨ ctx.slot.message ≠ none)
    (by simp only [Over, Option.mem_def])

instance (ses : Session) (c : Nat) (id : String) : Decidable (ses.Reads c id) :=
  decidable_of_iff (∃ ctx ∈ ses.transactions.context? c,
      (ctx.cursors.cursors.get? id).isSome = true) (by
    simp only [Reads, Option.mem_def, Option.isSome_iff_exists, exists_and_left])

def Remembers (ses ses' : Session) : Prop := ∀ c ctx, ses.transactions.context? c = some ctx →
  ∃ ctx', ses'.transactions.context? c = some ctx' ∧ ctx.cursors.Grows ctx'.cursors

/-- No cursor is forgotten. None is opened, and no transaction that has an open cursor is over now
that was not before, except for contexts in `E`. -/
structure Tight (E : Nat → Prop) (ses ses' : Session) : Prop where
  keeps : ses.Remembers ses'
  reads : ∀ c id, ses'.Reads c id → ses.Reads c id ∨ E c
  ends : ∀ c ctx id, ses.transactions.context? c = some ctx → ses'.Reads c id ∨ E c →
    ses'.Over c → ses.Over c

namespace Tight

variable {E : Nat → Prop} {ses ses' : Session}

/-- A session whose contexts that are there stay as they are, and that has no new ones with open
cursors. -/
theorem of_kept
    (kept : ∀ c ctx, ses.transactions.context? c = some ctx →
      ses'.transactions.context? c = some ctx)
    (fresh : ∀ c ctx, ses'.transactions.context? c = some ctx →
      ses.transactions.context? c = some ctx ∨ ctx.cursors = {})
    (index : ∀ c ∈ ses.transactions.registered, c ∈ ses'.transactions.registered)
    (phase : ses'.phase = .ended → ses.phase = .ended) : ses.Tight E ses' where
  keeps c ctx known := ⟨ctx, kept c ctx known, .refl _⟩
  reads c id := by
    rintro ⟨ctx, cursor, known, reading⟩
    rcases fresh c ctx known with known | empty
    · exact .inl ⟨ctx, cursor, known, reading⟩
    · rw [empty] at reading
      cases reading
  ends c ctx id known _ := by
    rintro ⟨ctx', known', ended⟩
    cases Option.some.inj ((kept c ctx known).symm.trans known')
    refine ⟨ctx, known, ?_⟩
    rcases ended with ended | gone | told
    · exact .inl (phase ended)
    · exact .inr (.inl fun registered => gone (index c registered))
    · exact .inr (.inr told)

theorem of_aside (aside : ses.Aside ses') : ses.Tight E ses' := by
  have same (c : Nat) : ses'.transactions.context? c = ses.transactions.context? c := by
    unfold Transactions.context?
    rw [aside.contexts]
  refine of_kept (fun c ctx known => (same c).trans known)
    (fun c ctx known => .inl ((same c).symm.trans known)) (fun c registered => ?_) aside.phase
  unfold Transactions.registered
  rwa [aside.index]

end Tight

theorem tight_bury {E : Nat → Prop} (ses : Session) {c : Context} (empty : c.cursors = {}) :
    ses.Tight E { ses with transactions := ses.transactions.bury c } := by
  refine .of_kept (fun c' ctx known => Transactions.context?_of_bury _ known)
    (fun c' ctx known => ?_) (fun _ registered => registered) id
  rcases Transactions.context?_bury _ known with known | ⟨_, rfl⟩
  · exact .inl known
  · exact .inr empty

theorem tight_enroll {E : Nat → Prop} {ses : Session} {c : Context}
    (fresh : ses.transactions.index.get? c.key = none) (empty : c.cursors = {}) :
    ses.Tight E { ses with transactions := ses.transactions.enroll c } := by
  refine .of_kept (fun c' ctx known => Transactions.context?_of_enroll _ known)
    (fun c' ctx known => ?_) (fun c' registered => ?_) id
  · rcases Transactions.context?_enroll _ known with known | ⟨_, rfl⟩
    · exact .inl known
    · exact .inr empty
  · obtain ⟨k, registered⟩ := Transactions.mem_registered_iff.1 registered
    refine Transactions.mem_registered (k := k) ?_
    show (ses.transactions.index.insert c.key _).get? k = some c'
    rw [KeyMap.get?_insert, if_neg, registered]
    rintro rfl
    rw [fresh] at registered
    cases registered

end Session

/-! ## Telling -/

/-- Contexts stay and forget no cursor, and those that have open cursors were left alone. -/
structure Transactions.Hushes (t t' : Transactions) : Prop where
  index : t'.index = t.index
  keeps : ∀ c ctx, t.context? c = some ctx →
    ∃ ctx', t'.context? c = some ctx' ∧ ctx.cursors.Grows ctx'.cursors
  alone : ∀ c ctx id cursor, t'.context? c = some ctx → ctx.cursors.cursors.get? id = some cursor →
    t.context? c = some ctx

namespace Transactions

variable {t t' t'' : Transactions}

theorem Hushes.refl (t : Transactions) : t.Hushes t :=
  ⟨rfl, fun _ ctx known => ⟨ctx, known, .refl _⟩, fun _ _ _ _ known _ => known⟩

theorem Hushes.trans (h : t.Hushes t') (h' : t'.Hushes t'') : t.Hushes t'' := by
  refine ⟨h'.index.trans h.index, fun c ctx known => ?_, fun c ctx id cursor known reading => ?_⟩
  · obtain ⟨ctx', known', grows⟩ := h.keeps c ctx known
    obtain ⟨ctx'', known'', grows'⟩ := h'.keeps c ctx' known'
    exact ⟨ctx'', known'', grows.trans grows'⟩
  · exact h.alone c ctx id cursor (h'.alone c ctx id cursor known reading) reading

def Closing (f : Context → Context) : Prop := ∀ ctx, (f ctx).cursors = ctx.cursors.closeAll

theorem other_of_closing {f : Context → Context} (closing : Closing f) {a c : Nat} {ctx : Context}
    {id : String} {cursor : Cursor Scan} (known : (t.modify a f).context? c = some ctx)
    (reading : ctx.cursors.cursors.get? id = some cursor) : a ≠ c ∧ t.context? c = some ctx := by
  rw [context?_modify] at known
  split at known
  · obtain ⟨ctx', _, rfl⟩ := Option.map_eq_some_iff.1 known
    rw [closing, CursorTable.cursors_closeAll] at reading
    cases reading
  · rename_i other
    exact ⟨other, known⟩

theorem hushes_modify {f : Context → Context} (closing : Closing f) (t : Transactions) (a : Nat) :
    t.Hushes (t.modify a f) := by
  refine ⟨rfl, fun c ctx known => ?_, fun c ctx id cursor known reading =>
    (other_of_closing closing known reading).2⟩
  rw [context?_modify]
  split
  · refine ⟨f ctx, by rw [known]; rfl, ?_⟩
    rw [closing]
    exact CursorTable.grows_closeAll _
  · exact ⟨ctx, known, .refl _⟩

/-- When the cursors of several contexts are closed, those that have open ones are none of them. -/
theorem hushes_foldl {f : Context → Context} (closing : Closing f) (l : List Nat)
    (t : Transactions) :
    t.Hushes (l.foldl (fun t c => t.modify c f) t) ∧
      ∀ c ctx id cursor, (l.foldl (fun t c => t.modify c f) t).context? c = some ctx →
        ctx.cursors.cursors.get? id = some cursor → c ∉ l := by
  induction l generalizing t with
  | nil => exact ⟨.refl t, fun _ _ _ _ _ _ => List.not_mem_nil⟩
  | cons a l ih =>
    obtain ⟨hushes, others⟩ := ih (t.modify a f)
    refine ⟨(hushes_modify closing t a).trans hushes, fun c ctx id cursor known reading => ?_⟩
    have before := hushes.alone c ctx id cursor known reading
    rw [List.mem_cons, not_or]
    exact ⟨(other_of_closing closing before reading).1.symm, others c ctx id cursor known reading⟩

end Transactions

namespace Session

abbrev Nowhere : Nat → Prop := fun _ => False

/-- Whoever waits may be told, and a session may end, if cursors are closed by that. -/
theorem Tight.of_hushes {ses ses' : Session} (hushes : ses.transactions.Hushes ses'.transactions)
    (phase : ses'.phase = .ended → ses.phase = .ended ∨
      ∀ c id, ses'.Reads c id → c ∉ ses.transactions.registered) : ses.Tight Nowhere ses' where
  keeps := hushes.keeps
  reads c id := by
    rintro ⟨ctx, cursor, known, reading⟩
    exact .inl ⟨ctx, cursor, hushes.alone c ctx id cursor known reading, reading⟩
  ends c ctx id known reads := by
    rintro ⟨ctx', known', ended⟩
    rcases reads with ⟨ctx₁, cursor, known₁, reading⟩ | ⟨⟨⟩⟩
    have before := hushes.alone c ctx₁ id cursor known₁ reading
    cases Option.some.inj (known'.symm.trans known₁)
    refine ⟨ctx', before, ?_⟩
    rcases ended with ended | gone | told
    · rcases phase ended with ended | closed
      · exact .inl ended
      · exact .inr (.inl (closed c id ⟨ctx', cursor, known', reading⟩))
    · unfold Transactions.registered at gone
      rw [hushes.index] at gone
      exact .inr (.inl gone)
    · exact .inr (.inr told)

theorem hushes_notify (ses : Session) (m : Message) :
    ses.transactions.Hushes (ses.notify m).transactions := by
  unfold notify
  split
  · exact .refl _
  · exact Transactions.hushes_modify (fun _ => rfl) _ _

theorem tight_notify (ses : Session) (m : Message) : ses.Tight Nowhere (ses.notify m) := by
  refine .of_hushes (ses.hushes_notify m) fun ended => .inl ?_
  unfold notify at ended
  split at ended
  · exact ended
  · exact ended

/-- A session that ends closes the cursors of all registered contexts. -/
theorem tight_farewell {ses ses' : Session} (m : Message)
    (left : ses'.transactions = (ses.notify m).notifyAll.transactions) :
    ses.Tight Nowhere ses' := by
  have told := ses.hushes_notify m
  obtain ⟨hushes, others⟩ := Transactions.hushes_foldl
    (f := fun c => c.notify ⟨.error, c.channel, c.tx, farewell, none⟩) (fun _ => rfl)
    (ses.notify m).transactions.registered (ses.notify m).transactions
  refine .of_hushes ?_ fun _ => .inr fun c id => ?_
  · rw [left]
    exact told.trans hushes
  · rintro ⟨ctx, cursor, known, reading⟩
    rw [left] at known
    have other := others c ctx id cursor known reading
    unfold Transactions.registered at other ⊢
    rwa [told.index] at other

theorem tight_slot (ses : Session) (a : Nat) {f : Context → Context}
    (cursors : ∀ ctx, (f ctx).cursors = ctx.cursors) (empty : ∀ ctx, (f ctx).slot.message = none) :
    ses.Tight Nowhere { ses with transactions := ses.transactions.modify a f } := by
  -- every context has the cursors it had, and no message that it had not
  have before {c : Nat} {ctx' : Context}
      (known' : (ses.transactions.modify a f).context? c = some ctx') :
      ∃ ctx, ses.transactions.context? c = some ctx ∧ ctx'.cursors = ctx.cursors ∧
        (ctx'.slot.message ≠ none → ctx.slot.message ≠ none) := by
    rw [Transactions.context?_modify] at known'
    split at known'
    · obtain ⟨ctx, known, rfl⟩ := Option.map_eq_some_iff.1 known'
      exact ⟨ctx, known, cursors ctx, fun held => absurd (empty ctx) held⟩
    · exact ⟨ctx', known', rfl, id⟩
  refine ⟨fun c ctx known => ?_, fun c id => ?_, fun c ctx id known _ => ?_⟩
  · rw [Transactions.context?_modify, known]
    split
    · exact ⟨_, rfl, cursors ctx ▸ .refl _⟩
    · exact ⟨ctx, rfl, .refl _⟩
  · rintro ⟨ctx', cursor, known', reading⟩
    obtain ⟨ctx, known, same, _⟩ := before known'
    exact .inl ⟨ctx, cursor, known, same ▸ reading⟩
  · rintro ⟨ctx', known', ended⟩
    obtain ⟨ctx, known, _, message⟩ := before known'
    exact ⟨ctx, known, ended.imp_right (·.imp_right message)⟩

end Session

namespace Node

/-! ## Nodes -/

variable {n n' n'' : Node} {s t : SessionId} {c : Nat} {id : String}
  {E : SessionId → Nat → Prop}

/-- A transaction is over for its context. -/
def Over (n : Node) (s : SessionId) (c : Nat) : Prop := ∃ ses, n.session? s = some ses ∧ ses.Over c

def Reads (n : Node) (s : SessionId) (c : Nat) (id : String) : Prop :=
  ∃ ses, n.session? s = some ses ∧ ses.Reads c id

instance (n : Node) (s : SessionId) (c : Nat) : Decidable (n.Over s c) :=
  decidable_of_iff (∃ ses ∈ n.session? s, ses.Over c) (by simp only [Over, Option.mem_def])

instance (n : Node) (s : SessionId) (c : Nat) (id : String) : Decidable (n.Reads s c id) :=
  decidable_of_iff (∃ ses ∈ n.session? s, ses.Reads c id) (by simp only [Reads, Option.mem_def])

def Remembers (n n' : Node) : Prop := ∀ s c ctx, n.context? s c = some ctx →
  ∃ ctx', n'.context? s c = some ctx' ∧ ctx.cursors.Grows ctx'.cursors

theorem Remembers.trans (h : Remembers n n') (h' : Remembers n' n'') : Remembers n n'' := by
  intro s c ctx known
  obtain ⟨ctx', known', grows⟩ := h s c ctx known
  obtain ⟨ctx'', known'', grows'⟩ := h' s c ctx' known'
  exact ⟨ctx'', known'', grows.trans grows'⟩

theorem Remembers.modify (n : Node) (t : SessionId) {f : Session → Session}
    (h : ∀ ses, n.session? t = some ses → ses.Remembers (f ses)) : Remembers n (n.modify t f) := by
  intro s c ctx known
  obtain ⟨ses, found, there⟩ := context?_eq_some_iff.1 known
  by_cases same : t = s
  · subst same
    obtain ⟨ctx', known', grows⟩ := h ses found c ctx there
    exact ⟨ctx', context?_eq_some_iff.2 ⟨f ses, session?_modify found, known'⟩, grows⟩
  · refine ⟨ctx, context?_eq_some_iff.2 ⟨ses, ?_, there⟩, .refl _⟩
    rw [session?_modify_if, if_neg same, found]

/-- No cursor is forgotten. None is opened, and no transaction that has an open cursor is over now
that was not before, except for contexts in `E`. -/
structure Tight (E : SessionId → Nat → Prop) (n n' : Node) : Prop where
  keeps : Remembers n n'
  reads : ∀ s c id, n'.Reads s c id → n.Reads s c id ∨ E s c
  ends : ∀ s c ctx id, n.context? s c = some ctx → n'.Reads s c id ∨ E s c →
    n'.Over s c → n.Over s c

namespace Tight

theorem trans (h : Tight E n n') (h' : Tight E n' n'') : Tight E n n'' := by
  refine ⟨h.keeps.trans h'.keeps, fun s c id reads => ?_, fun s c ctx id known reads past => ?_⟩
  · rcases h'.reads s c id reads with reads | excepted
    · exact h.reads s c id reads
    · exact .inr excepted
  · obtain ⟨ctx', known', _⟩ := h.keeps s c ctx known
    have past' : n'.Over s c := h'.ends s c ctx' id known' reads past
    rcases reads with reads | excepted
    · exact h.ends s c ctx id known (h'.reads s c id reads) past'
    · exact h.ends s c ctx id known (.inr excepted) past'

/-- Sessions stay and are tight, and new ones have no contexts. -/
theorem of_sessions (stays : ∀ s ses, n.session? s = some ses → ∃ ses', n'.session? s = some ses' ∧
      ses.Tight (E s) ses')
    (fresh : ∀ s ses', n'.session? s = some ses' → (∃ ses, n.session? s = some ses) ∨
      ses'.transactions = {}) : Tight E n n' := by
  refine ⟨fun s c ctx known => ?_, fun s c id => ?_, fun s c ctx id known => ?_⟩
  · obtain ⟨ses, found, known⟩ := context?_eq_some_iff.1 known
    obtain ⟨ses', found', tight⟩ := stays s ses found
    obtain ⟨ctx', known', grows⟩ := tight.keeps c ctx known
    exact ⟨ctx', context?_eq_some_iff.2 ⟨ses', found', known'⟩, grows⟩
  · rintro ⟨ses', found', reads⟩
    rcases fresh s ses' found' with ⟨ses, found⟩ | blank
    · obtain ⟨ses₁, found₁, tight⟩ := stays s ses found
      cases Option.some.inj (found'.symm.trans found₁)
      exact (tight.reads c id reads).imp_left fun reads => ⟨ses, found, reads⟩
    · obtain ⟨ctx, _, known, _⟩ := reads
      rw [blank] at known
      cases known
  · obtain ⟨ses, found, known⟩ := context?_eq_some_iff.1 known
    obtain ⟨ses', found', tight⟩ := stays s ses found
    intro reads
    rintro ⟨ses₁, found₁, past⟩
    cases Option.some.inj (found'.symm.trans found₁)
    refine ⟨ses, found, tight.ends c ctx id known (reads.imp_left ?_) past⟩
    rintro ⟨ses₁, found₁, reads⟩
    cases Option.some.inj (found'.symm.trans found₁)
    exact reads

theorem modify (n : Node) (t : SessionId) {f : Session → Session}
    (h : ∀ ses, n.session? t = some ses → ses.Tight (E t) (f ses)) : Tight E n (n.modify t f) := by
  refine of_sessions (fun s ses found => ?_) fun s ses' found' => .inl ?_
  · rw [session?_modify_if]
    split
    · rename_i same
      subst same
      exact ⟨f ses, by rw [found]; rfl, h ses found⟩
    · exact ⟨ses, found, .of_aside (.of_eq rfl rfl)⟩
  · rcases session?_modify_cases found' with ⟨rfl, ses, found, _⟩ | ⟨_, found'⟩
    · exact ⟨ses, found⟩
    · exact ⟨ses', found'⟩

theorem outside (sessions : n'.sessions = n.sessions) : Tight E n n' := by
  refine of_sessions (fun s ses found => ⟨ses, ?_, .of_aside (.of_eq rfl rfl)⟩)
    fun s ses' found' => .inl ⟨ses', ?_⟩
  · unfold session? at found ⊢
    rwa [sessions]
  · unfold session? at found' ⊢
    rwa [sessions] at found'

theorem refl (n : Node) : Tight E n n := outside rfl

end Tight

theorem frame_tight : Frame (Tight E) where
  refl := .refl
  trans := .trans
  outside sessions _ _ _ := .outside sessions
  aside h := .modify _ _ fun ses found => .of_aside (h ses found)
  append {n ses} blank := by
    refine .of_sessions (fun s ses' found => ⟨ses', ?_, .of_aside (.of_eq rfl rfl)⟩)
      fun s ses' found' => ?_
    · exact (List.getElem?_append_left (List.getElem?_eq_some_iff.1 found).1).trans found
    · change (n.sessions ++ [ses])[s]? = some ses' at found'
      rw [List.getElem?_append] at found'
      split at found'
      · exact .inl ⟨ses', found'⟩
      · rw [List.getElem?_singleton] at found'
        split at found'
        · cases found'
          exact .inr blank
        · cases found'
  bury unheard := .modify _ _ fun ses _ => ses.tight_bury unheard.cursors
  enroll found fresh unheard := .modify _ _ fun ses found' => by
    cases Option.some.inj (found.symm.trans found')
    exact Session.tight_enroll fresh unheard.cursors

abbrev Nowhere : SessionId → Nat → Prop := fun _ _ => False

theorem tight_ended (n : Node) (t : SessionId) : Tight Nowhere n ((n.farewelled t).closed t) := by
  obtain ⟨directory, left⟩ := (n.farewelled t).deregister_eq t
  have told : Tight Nowhere n (((n.farewelled t).modify t fun ses =>
      { ses with isRegistered := false }).modify t fun ses =>
        { ses with phase := .ended }.stop) := by
    unfold farewelled
    rw [modify_modify, modify_modify]
    exact .modify n t fun ses _ => Session.tight_farewell _ rfl
  refine told.trans (.outside ?_)
  unfold closed
  rw [left]
  rfl

theorem tight_notify (n : Node) (t : SessionId) (m : Message) :
    Tight Nowhere n (n.modify t (·.notify m)) :=
  .modify n t fun ses _ => ses.tight_notify m

theorem telling_tight : Telling (Tight Nowhere) where
  toFrame := frame_tight
  notify _ _ := tight_notify ..
  farewell := tight_ended
  polled n t c := .modify n t fun ses _ => ses.tight_slot c (fun _ => rfl) fun _ => rfl

/-! ## Moves -/

theorem tight_cursors {ctx : Context} (known : n.context? t c = some ctx) {u : CursorTable Scan}
    (grows : ctx.cursors.Grows u) (excepted : E t c) : Tight E n (n.modifyCursors t c u) := by
  refine .modify n t fun ses found => ?_
  obtain ⟨ses', found', known⟩ := context?_eq_some_iff.1 known
  cases Option.some.inj (found.symm.trans found')
  refine ⟨fun a ctx' known' => ?_, fun a id => ?_, fun a ctx' id known' _ => ?_⟩
  · rw [Transactions.context?_modify, known']
    split
    · rename_i same
      subst same
      cases Option.some.inj (known.symm.trans known')
      exact ⟨_, rfl, grows⟩
    · exact ⟨ctx', rfl, .refl _⟩
  · rintro ⟨ctx', cursor, known', reading⟩
    rw [Transactions.context?_modify] at known'
    split at known'
    · rename_i same
      exact .inr (same ▸ excepted)
    · exact .inl ⟨ctx', cursor, known', reading⟩
  · rintro ⟨ctx₁, known₁, ended⟩
    rw [Transactions.context?_modify] at known₁
    split at known₁
    · obtain ⟨ctx₂, known₂, rfl⟩ := Option.map_eq_some_iff.1 known₁
      exact ⟨ctx₂, known₂, ended⟩
    · exact ⟨ctx₁, known₁, ended⟩

theorem tight_turning {ctx : Context} {r : Request} (known : n.context? t c = some ctx)
    (turning : Turning n t c ctx r n') (excepted : E t c) : Tight E n n' := by
  cases turning with
  | opens max scan =>
    have opened : Tight E n (n.modifyCursors t c
        (ctx.cursors.openCursor max (cursorId n.cursorCount) scan).2) :=
      tight_cursors known (CursorTable.grows_openCursor max _ _ scan) excepted
    exact opened.trans (.outside rfl)
  | advances max q => exact tight_cursors known (CursorTable.grows_advance max _ q.id) excepted
  | closes q => exact tight_cursors known (CursorTable.grows_close _ q.id) excepted

/-- A worker leaves all contexts tight but that which the request it takes up lands in. -/
theorem tight_work? (took : n.work? t = some n') :
    Tight (fun s c => (∃ ctx, n.context? s c = some ctx) ∧ ∃ job r, Takes s c job r n n') n n' :=
  frame_tight.work? took fun job _ ctx r _ _ takes known known' turning =>
    tight_turning known' turning ⟨⟨ctx, known⟩, job, r, takes⟩

end Node

end ContractNode
