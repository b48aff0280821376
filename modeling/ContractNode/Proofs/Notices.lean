import ContractNode.Proofs.Desks

/-!
# Who is told what

Executions wait for messages in the slots of their contexts.

* `Node.Undisturbed` : the same executions wait as before, and none is told anything;
* `Node.Delivered` : the execution under the key of a message is told, and no other;
* `Node.Informs` : the one for a result, the other for a failure;
* `undisturbed_dealt`, `undisturbed_resume?` : a request that is no call disturbs nobody until its
  answer is shown;
* `informs_command?` : the outbound loop shows an answer to a lifecycle that is ready.
-/

namespace ContractNode

namespace Node

def about? (n : Node) (s : SessionId) (m : Message) : Option Nat :=
  (n.session? s).bind fun ses => ses.transactions.find? m.channel m.tx

/-- The same executions wait as before, in the same contexts, and none is told anything. -/
structure Undisturbed (n n' : Node) : Prop where
  calls : n'.calls = n.calls
  about : ∀ s m c, n.about? s m = some c → n'.about? s m = some c
  contexts : ∀ s c ctx, n.context? s c = some ctx →
    ∃ cursors, n'.context? s c = some { ctx with cursors }

/-- The execution under the key of a message is told, and its cursors are closed. No other is told
anything. -/
structure Delivered (n : Node) (s : SessionId) (m : Message) (n' : Node) : Prop where
  calls : n'.calls = n.calls
  others : ∀ t c ctx, n.context? t c = some ctx → (t = s → n.about? s m ≠ some c) →
    n'.context? t c = some ctx
  cursors : ∀ c ctx, n.about? s m = some c → n.context? s c = some ctx →
    ∃ ctx', n'.context? s c = some ctx' ∧ ctx.cursors.Closed ctx'.cursors
  returns : ∀ call ∈ n.calls, call.session = s → n.about? s m = some call.context →
    n.finish? call = none →
      ∃ ctx, n'.finish? call = some ((n'.retire call ctx).deliver call.origin (.ok m))

/-- What the executions that wait are told when a command is shown. -/
structure Informs (n : Node) (s : SessionId) (c : Command) (n' : Node) : Prop where
  result : c.message.kind = .response → Undisturbed n n'
  failure : c.message.kind = .error → Delivered n s c.message n'

variable {n n' n'' : Node} {s : SessionId} {ses : Session}

namespace Undisturbed

theorem refl (n : Node) : Undisturbed n n :=
  ⟨rfl, fun _ _ _ found => found, fun _ _ ctx known => ⟨ctx.cursors, known⟩⟩

theorem trans (h : Undisturbed n n') (h' : Undisturbed n' n'') : Undisturbed n n'' := by
  refine ⟨h'.calls.trans h.calls, fun s m c found => h'.about s m c (h.about s m c found),
    fun s c ctx known => ?_⟩
  obtain ⟨cursors, known'⟩ := h.contexts s c ctx known
  exact h'.contexts s c { ctx with cursors } known'

theorem inside (h : Inside n n') : Undisturbed n n' where
  calls := h.calls
  about s m c found := by
    obtain ⟨ses, there, registered⟩ := Option.bind_eq_some_iff.1 found
    obtain ⟨ses', there', inside⟩ := h.session there
    refine Option.bind_eq_some_iff.2 ⟨ses', there', ?_⟩
    rw [← registered, Transactions.find?, Transactions.find?, inside.transactions.index]
  contexts s c ctx known := h.context known

theorem modify (n : Node) (s : SessionId) {f : Session → Session}
    (h : ∀ ses, n.session? s = some ses →
      (f ses).transactions.index = ses.transactions.index ∧
        (f ses).transactions.contexts = ses.transactions.contexts) :
    Undisturbed n (n.modify s f) where
  calls := rfl
  about t m c found := by
    obtain ⟨ses, there, registered⟩ := Option.bind_eq_some_iff.1 found
    unfold about?
    rw [session?_modify_if, there]
    split
    · rename_i same
      subst same
      rw [← registered]
      exact congrArg (KeyMap.get? · (contextKey m.channel m.tx)) (h ses there).1
    · exact registered
  contexts t c ctx known := by
    obtain ⟨ses, there, kept⟩ := context?_eq_some_iff.1 known
    refine ⟨ctx.cursors, ?_⟩
    unfold context?
    rw [session?_modify_if, there]
    split
    · rename_i same
      subst same
      exact (congrArg (·[c]?) (h ses there).2).trans kept
    · exact kept

theorem apart (n : Node) (s : SessionId) {f : Session → Session}
    (h : ∀ ses, (f ses).transactions = ses.transactions) : Undisturbed n (n.modify s f) :=
  modify n s fun ses _ => by
    rw [h ses]
    exact ⟨rfl, rfl⟩

end Undisturbed

/-! ## Requests -/

theorem undisturbed_dealt {job : Job} {p : Option ParkedRead} (dealt : Dealt n s ses job p n')
    (other : job.kind ≠ .invoke) : Undisturbed n n' := by
  have replied (n : Node) (r : Message) : Undisturbed n (n.modify s (·.reply job.kind r)) :=
    .apart n s fun ses => (ses.talks_reply job.kind r).transactions
  cases dealt with
  | dropped => exact .refl n
  | answered free inside course => exact (Undisturbed.inside inside).trans (replied ..)
  | @stored _ _ _ _ l stores =>
    have stored : Inside n { n with ledger := l } := .outside n l n.cursorCount
    exact (Undisturbed.inside stored).trans (replied ..)
  | parked => exact .modify n s fun _ _ => ⟨rfl, rfl⟩
  | calling calls => exact absurd calls other

theorem undisturbed_resume? (took : n.resume? s = some n') : Undisturbed n n' := by
  unfold resume? at took
  split at took
  · cases took
  · obtain ⟨p, _, rfl⟩ := Option.map_eq_some_iff.1 took
    rw [resume_eq, modify_modify]
    refine .modify n s fun ses _ => ?_
    rw [Function.comp_apply, (Session.talks_reply _ p.job.kind _).transactions]
    exact ⟨rfl, rfl⟩

/-! ## Answers that are shown -/

section Shown

variable {c : Command} {rest : List Instruction}

/-- A command that is shown to a ready lifecycle, and forwarded if it is to be. -/
theorem command?_of_next (took : n.command? s = some n') (found : n.session? s = some ses)
    (queued : ses.commands = .next c :: rest) (lenient : c.sync = false) :
    n' = ((n.modify s fun ses => { ses with commands := rest }).handle s c.message).modify s
      fun ses => if c.forward then ses.sendAnyway c.message else ses := by
  unfold command? at took
  simp only [found, queued] at took
  split at took
  · cases took
    unfold carryOut
    cases c.forward with
    | true => simp [lenient]
    | false =>
      simp only [Bool.false_eq_true, if_false]
      exact (modify_self fun _ _ => rfl).symm
  · cases took

theorem transactions_forward (ses : Session) (c : Command) :
    (if c.forward then ses.sendAnyway c.message else ses).transactions = ses.transactions := by
  split
  · exact (ses.talks_sendAnyway c.message).transactions
  · rfl

/-- A result is nothing to a lifecycle. -/
theorem handle_of_response {m : Message} (n : Node) (s : SessionId) (kind : m.kind = .response) :
    n.handle s m = n := by
  rw [handle_of_answer s (.inl kind)]
  exact modify_self fun ses _ => by simp [bypasses, kind]

theorem undisturbed_command? (took : n.command? s = some n') (found : n.session? s = some ses)
    (queued : ses.commands = .next c :: rest) (lenient : c.sync = false)
    (kind : c.message.kind = .response) : Undisturbed n n' := by
  rw [command?_of_next took found queued lenient, handle_of_response _ s kind, modify_modify]
  exact .apart n s fun ses => transactions_forward _ c

/-- Whoever waits under the key of a message is told, and nobody else. -/
theorem delivered_notify {m : Message} {f : Session → Session} (sound : n.Sound)
    (found : n.session? s = some ses)
    (notifies : (f ses).transactions = (ses.notify m).transactions) :
    Delivered n s m (n.modify s f) := by
  have about : n.about? s m = ses.transactions.find? m.channel m.tx := by
    rw [about?, found]
    rfl
  have there (c : Nat) : (n.modify s f).context? s c = (ses.notify m).transactions.context? c := by
    rw [context?, session?_modify found, ← notifies]
    rfl
  have told {c : Nat} {ctx : Context} (same : n.about? s m = some c)
      (known : n.context? s c = some ctx) : (n.modify s f).context? s c = some (ctx.notify m) := by
    rw [about] at same
    rw [context?, found] at known
    have known : ses.transactions.context? c = some ctx := known
    rw [there, Session.notify, same]
    simp [Transactions.context?_modify, known]
  refine ⟨rfl, fun t c ctx known other => ?_, fun c ctx same known => ?_, ?_⟩
  · by_cases here : t = s
    · subst here
      have apart := other rfl
      rw [about] at apart
      rw [there, ← known, context?, found, Session.notify]
      split
      · rfl
      · rename_i c' registered
        refine (Transactions.context?_modify ..).trans (if_neg fun same => ?_)
        exact apart (same ▸ registered)
    · rw [context?, session?_modify_if, if_neg (Ne.symm here)]
      exact known
  · refine ⟨ctx.notify m, told same known, CursorTable.closed_closeAll ?_⟩
    rw [context?, found] at known
    exact (sound.transactions s ses found).clean c ctx known
  · rintro call waits rfl same idle
    obtain ⟨ctx, known, held⟩ := sound.waits call waits
    have empty := finish?_eq_none_iff.1 idle ctx known
    refine ⟨ctx.notify m, ?_⟩
    simp only [finish?, told same known, message_notify_held (m := m) held empty]

theorem delivered_command? (took : n.command? s = some n') (sound : n.Sound)
    (found : n.session? s = some ses)
    (queued : ses.commands = .next c :: rest) (lenient : c.sync = false)
    (ready : ses.phase = .ready) (kind : c.message.kind = .error) :
    Delivered n s c.message n' := by
  have found' := session?_modify (f := fun ses => { ses with commands := rest }) found
  rw [command?_of_next took found queued lenient, handle_of_ends found' ready (.inr kind),
    modify_modify, modify_modify]
  refine delivered_notify sound found ?_
  refine (transactions_forward _ c).trans ?_
  show Session.transactions (Session.notify { ses with commands := rest } c.message) = _
  unfold Session.notify
  split
  · rename_i absent
    rw [absent]
  · rename_i no there
    rw [there]

theorem informs_command? (took : n.command? s = some n') (sound : n.Sound)
    (found : n.session? s = some ses) (queued : ses.commands = .next c :: rest)
    (lenient : c.sync = false) (ready : ses.phase = .ready) : Informs n s c n' :=
  ⟨undisturbed_command? took found queued lenient,
    delivered_command? took sound found queued lenient ready⟩

end Shown

end Node

end ContractNode
