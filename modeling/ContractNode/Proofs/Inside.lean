import ContractNode.Proofs.Writing

/-!
# Changes inside a request

Until it is answered, a request changes the ledger and the cursors of contexts, and nothing else
that anybody can see from outside of it.

* `Transactions.Inside`, `Session.Inside`, `Node.Inside` : only cursors change, and the ledger; new
  contexts are kept that are not registered;
* `Node.Inside.session`, `Node.Inside.context` : what is there before is there after.
-/

namespace ContractNode

/-- Contexts change in nothing but their cursors, and new ones are not registered. -/
structure Transactions.Inside (t t' : Transactions) : Prop where
  rest : t' = { t with contexts := t'.contexts }
  contexts : ∀ c ctx, t.context? c = some ctx → ∃ cursors, t'.context? c = some { ctx with cursors }

/-- A session changes in nothing but its contexts. -/
structure Session.Inside (ses ses' : Session) : Prop where
  rest : ses' = { ses with transactions := ses'.transactions }
  transactions : ses.transactions.Inside ses'.transactions

namespace Transactions.Inside

variable {t t' t'' : Transactions}

theorem refl (t : Transactions) : t.Inside t := ⟨rfl, fun _ ctx known => ⟨ctx.cursors, known⟩⟩

theorem trans (h : t.Inside t') (h' : t'.Inside t'') : t.Inside t'' := by
  refine ⟨?_, fun c ctx known => ?_⟩
  · rw [h'.rest, h.rest]
  · obtain ⟨cursors, known'⟩ := h.contexts c ctx known
    exact h'.contexts c { ctx with cursors } known'

theorem markers (h : t.Inside t') : t'.markers = t.markers := by rw [h.rest]

theorem index (h : t.Inside t') : t'.index = t.index := by rw [h.rest]

end Transactions.Inside

namespace Session.Inside

variable {ses ses' ses'' : Session}

theorem refl (ses : Session) : ses.Inside ses := ⟨rfl, .refl _⟩

theorem trans (h : ses.Inside ses') (h' : ses'.Inside ses'') : ses.Inside ses'' := by
  refine ⟨?_, h.transactions.trans h'.transactions⟩
  rw [h'.rest, h.rest]

end Session.Inside

namespace Node

/-- The ledger, the number of cursors and the cursors of contexts change, and nothing else. -/
structure Inside (n n' : Node) : Prop where
  rest : n' =
    { n with ledger := n'.ledger, sessions := n'.sessions, cursorCount := n'.cursorCount }
  sessions : ∀ s, Option.Rel Session.Inside (n.session? s) (n'.session? s)

namespace Inside

variable {n n' : Node}

theorem outside (n : Node) (ledger : Ledger) (cursorCount : Nat) :
    Inside n { n with ledger, cursorCount } := by
  refine ⟨rfl, fun s => ?_⟩
  show Option.Rel Session.Inside (n.session? s) (n.session? s)
  cases n.session? s with
  | none => exact .none
  | some ses => exact .some (.refl ses)

theorem refl (n : Node) : Inside n n := outside n n.ledger n.cursorCount

theorem modify (n : Node) (s : SessionId) {f : Session → Session}
    (h : ∀ ses, n.session? s = some ses → ses.Inside (f ses)) : Inside n (n.modify s f) := by
  refine ⟨rfl, fun t => ?_⟩
  rw [session?_modify_if]
  cases found : n.session? t with
  | none =>
    split
    · exact .none
    · exact .none
  | some ses =>
    split
    · rename_i same
      subst same
      exact .some (h ses found)
    · exact .some (.refl ses)

theorem trans {n'' : Node} (h : Inside n n') (h' : Inside n' n'') : Inside n n'' := by
  refine ⟨?_, fun s => ?_⟩
  · rw [h'.rest, h.rest]
  · have first := h.sessions s
    have second := h'.sessions s
    generalize n.session? s = here at first ⊢
    generalize n'.session? s = there at first second
    cases first with
    | none => exact second
    | some inside =>
      generalize n''.session? s = there'' at second ⊢
      cases second with
      | some inside' => exact .some (inside.trans inside')

theorem session (h : Inside n n') {s : SessionId} {ses : Session}
    (found : n.session? s = some ses) : ∃ ses', n'.session? s = some ses' ∧ ses.Inside ses' := by
  have related := h.sessions s
  rw [found] at related
  generalize n'.session? s = there at related ⊢
  cases related with
  | some inside => exact ⟨_, rfl, inside⟩

theorem missing (h : Inside n n') {s : SessionId} (none : n.session? s = none) :
    n'.session? s = .none := by
  have related := h.sessions s
  rw [none] at related
  generalize n'.session? s = there at related ⊢
  cases related with
  | none => rfl

theorem markers (h : Inside n n') (s : SessionId) : n'.markers s = n.markers s := by
  unfold Node.markers
  cases found : n.session? s with
  | none => rw [h.missing found]
  | some ses =>
    obtain ⟨ses', found', inside⟩ := h.session found
    rw [found', Option.map_some, Option.map_some, inside.transactions.markers]

theorem calls (h : Inside n n') : n'.calls = n.calls := by rw [h.rest]

/-- A context that is known before is known after, with cursors of its own. -/
theorem context (h : Inside n n') {s : SessionId} {c : Nat} {ctx : Context}
    (known : n.context? s c = some ctx) :
    ∃ cursors, n'.context? s c = some { ctx with cursors } := by
  obtain ⟨ses, found, known⟩ := Option.bind_eq_some_iff.1 known
  obtain ⟨ses', found', inside⟩ := h.session found
  obtain ⟨cursors, known'⟩ := inside.transactions.contexts c ctx known
  exact ⟨cursors, Option.bind_eq_some_iff.2 ⟨ses', found', known'⟩⟩

end Inside

/-! ## What is done inside a request -/

theorem inside_modifyCursors (n : Node) (s : SessionId) (c : Nat) (t : CursorTable Scan) :
    Inside n (n.modifyCursors s c t) := by
  refine .modify n s fun ses _ => ⟨rfl, rfl, fun c' ctx known => ?_⟩
  simp only [Transactions.context?, Transactions.modify, List.getElem?_modify] at known ⊢
  by_cases same : c = c'
  · subst same
    exact ⟨t, by simp [known]⟩
  · exact ⟨ctx.cursors, by simp [same, known]⟩

theorem inside_abandoned (n : Node) (s : SessionId) (c : Context) :
    Inside n (n.abandoned s c) := by
  refine .modify n s fun ses _ => ⟨rfl, rfl, fun c' ctx known => ⟨ctx.cursors, ?_⟩⟩
  exact (List.getElem?_append_left (List.getElem?_eq_some_iff.1 known).1).trans known

end Node

end ContractNode
