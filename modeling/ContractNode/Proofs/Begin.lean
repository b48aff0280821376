import ContractNode.Proofs.Deed

/-!
# Beginning an execution

* `session?_modify_if`, `modify_modify`, `modify_comm`, `modify_self` : changes of sessions;
* `Begun` : what beginning an execution comes to, by cases (`begun_begin`);
* `began`, `abandoned` : the node with an execution that waits, and with one that could not begin;
* `Started` : what asking for an execution from outside comes to (`started_execute`, `started_run`);
* `Readied` : what beginning a handshake comes to (`readied_ready`).
-/

namespace ContractNode

theorem modify_concat {α : Type} (l : List α) (a : α) (f : α → α) :
    (l ++ [a]).modify l.length f = l ++ [f a] := by
  induction l with
  | nil => rfl
  | cons b l ih => simpa using ih

/-- A context that nobody has used yet. -/
structure Context.Blank (c : Context) : Prop where
  slot : c.slot = {}
  cursors : c.cursors = {}

namespace Node

/-! ## Changes of sessions -/

theorem session?_modify_if (n : Node) (s t : SessionId) (f : Session → Session) :
    (n.modify s f).session? t = if s = t then (n.session? t).map f else n.session? t := by
  simp only [session?, modify, List.getElem?_modify]
  split <;> simp

/-- A session of the changed node is the one that was changed, or another. -/
theorem session?_modify_cases {n : Node} {s t : SessionId} {f : Session → Session} {ses' : Session}
    (found : (n.modify s f).session? t = some ses') :
    (s = t ∧ ∃ ses, n.session? t = some ses ∧ ses' = f ses) ∨
      s ≠ t ∧ n.session? t = some ses' := by
  rw [session?_modify_if] at found
  split at found
  · obtain ⟨ses, there, rfl⟩ := Option.map_eq_some_iff.1 found
    exact .inl ⟨‹_›, ses, there, rfl⟩
  · exact .inr ⟨‹_›, found⟩

theorem modify_modify (n : Node) (s : SessionId) (f g : Session → Session) :
    (n.modify s f).modify s g = n.modify s (g ∘ f) := by
  simp only [modify, List.modify_modify_eq]

theorem modify_congr {n : Node} {s : SessionId} {f g : Session → Session}
    (h : ∀ ses, n.session? s = some ses → f ses = g ses) : n.modify s f = n.modify s g := by
  unfold modify
  congr 1
  apply List.ext_getElem?
  intro i
  simp only [List.getElem?_modify]
  split
  · rename_i same
    subst same
    cases found : n.sessions[s]? with
    | none => rfl
    | some ses => simp [h ses found]
  · rfl

theorem modify_self {n : Node} {s : SessionId} {f : Session → Session}
    (h : ∀ ses, n.session? s = some ses → f ses = ses) : n.modify s f = n := by
  rw [modify_congr (g := id) h]
  unfold modify
  rw [List.modify_id]

theorem modify_found {n : Node} {s : SessionId} {ses : Session} (found : n.session? s = some ses)
    (f : Session → Session) : n.modify s f = n.modify s fun _ => f ses :=
  modify_congr fun ses' found' => by
    cases Option.some.inj (found.symm.trans found')
    rfl

/-- Changes that do not get in each other's way can be made in either order. -/
theorem modify_comm (n : Node) (s t : SessionId) {f g : Session → Session}
    (h : ∀ ses, f (g ses) = g (f ses)) : (n.modify s f).modify t g = (n.modify t g).modify s f := by
  by_cases same : s = t
  · subst same
    rw [modify_modify, modify_modify]
    exact modify_congr fun ses _ => (h ses).symm
  · unfold modify
    congr 1
    apply List.ext_getElem?
    intro i
    simp only [List.getElem?_modify]
    by_cases hs : s = i <;> by_cases ht : t = i
    · exact absurd (hs.trans ht.symm) same
    · simp [hs, ht]
    · simp [hs, ht]
    · simp [hs, ht]

/-! ## Beginning an execution -/

/-- An execution that waits on a session which goes on. -/
def began (n : Node) (s : SessionId) (ses : Session) (c : Context) (m : Message)
    (origin : Origin) : Node :=
  { n.modify s fun ses =>
      { ses with
        transactions := ses.transactions.enroll c
        commands := ses.commands ++ [.next { message := m, forward := true }] } with
    calls := n.calls ++ [⟨s, ses.transactions.contexts.length, origin, n.deadline? s⟩] }

/-- What an execution leaves that could not begin since its session has stopped. -/
def abandoned (n : Node) (s : SessionId) (c : Context) : Node :=
  n.modify s fun ses =>
    { ses with transactions := ses.transactions.bury { c.closeCursors with slot := c.slot.drop } }

inductive Begun (n : Node) (s : SessionId) (c : Context) (m : Message) (origin : Origin) :
    Except SessionError Unit → Node → Prop
  | missing (none : n.session? s = none) : Begun n s c m origin (.error .sessionClosed) n
  | duplicate {ses : Session} (found : n.session? s = some ses)
      (taken : ses.transactions.index.contains c.key = true) :
      Begun n s c m origin (.error (.duplicateTransaction m.tx)) n
  | stopped {ses : Session} (found : n.session? s = some ses)
      (fresh : ses.transactions.index.get? c.key = none) (off : ses.outbound = .stopped) :
      Begun n s c m origin (.error .sessionClosed) (n.abandoned s c)
  | waits {ses : Session} (found : n.session? s = some ses)
      (fresh : ses.transactions.index.get? c.key = none) (on : ses.outbound ≠ .stopped) :
      Begun n s c m origin (.ok ()) (n.began s ses c m origin)

/-- A called contract gets a context of its own, with the rights that the call brings. -/
theorem eq_of_called {i : Invocation} {m : Message} {c : Context} (h : called i = .ok (m, c)) :
    m.channel = i.message.channel ∧ m.tx = i.message.tx ∧
      c = { channel := m.channel, tx := m.tx, simulator := some i.simulator
            historian := i.historian, signedProposal := i.signedProposal
            proposal := i.proposal } := by
  unfold called at h
  split at h
  · cases h
  · rename_i m' attached
    cases h
    refine ⟨?_, ?_, rfl⟩
    all_goals
      unfold attachProposal at attached
      split at attached
      · cases attached
      · cases attached
        rfl
      · cases attached
        rfl

theorem blank_of_called {i : Invocation} {m : Message} {c : Context} (h : called i = .ok (m, c)) :
    c.Blank := by
  rw [(eq_of_called h).2.2]
  exact ⟨rfl, rfl⟩

theorem blank_newContext (n : Node) (channel tx : String) (signedProposal : Option SignedProposal)
    (proposal : Option Proposal) : (n.newContext channel tx signedProposal proposal).Blank :=
  ⟨rfl, rfl⟩

theorem enroll_of_create {n : Node} {s : SessionId} {ses : Session} {c : Context}
    (tx : String) (found : n.session? s = some ses)
    (fresh : ses.transactions.index.get? c.key = none) :
    n.enroll s c tx = (.ok ses.transactions.contexts.length,
      n.modify s fun ses => { ses with transactions := ses.transactions.enroll c }) := by
  have free : ses.transactions.index.contains c.key = false :=
    KeyMap.contains_eq_false_iff.2 fresh
  have made : (ses.transactions.contexts ++ [c]).modify ses.transactions.contexts.length
      (fun c => { c with slot := c.slot.take.2 }) =
        ses.transactions.contexts ++ [{ c with slot := c.slot.take.2 }] := modify_concat ..
  simp only [Node.enroll, found, Transactions.create, free, Bool.false_eq_true, if_false,
    Transactions.modify, made]
  rw [modify_found found fun ses => { ses with transactions := ses.transactions.enroll c },
    modify_found found]
  rfl

theorem enqueue_on {n : Node} {s : SessionId} {ses : Session} (c : Command)
    (found : n.session? s = some ses) (on : ses.outbound ≠ .stopped) :
    n.enqueue s c =
      (true, n.modify s fun ses => { ses with commands := ses.commands ++ [.next c] }) := by
  simp only [enqueue, found, Session.enqueue, on, if_false]
  congr 1
  refine modify_congr fun ses' found' => ?_
  cases Option.some.inj (found.symm.trans found')
  simp only [on, if_false]

theorem enqueue_off {n : Node} {s : SessionId} {ses : Session} (c : Command)
    (found : n.session? s = some ses) (off : ses.outbound = .stopped) :
    n.enqueue s c = (false, n) := by
  simp only [enqueue, found, Session.enqueue, off, if_true]
  congr 1
  refine modify_self fun ses' found' => ?_
  cases Option.some.inj (found.symm.trans found')
  simp only [off, if_true]

theorem erase_insert {β : Type} {m : KeyMap β} {k : String} (fresh : m.get? k = none) (v : β) :
    (m.insert k v).erase k = m := by
  apply KeyMap.eq_of_get?_eq
  intro j
  rw [KeyMap.get?_erase, KeyMap.get?_insert]
  by_cases same : k = j
  · subst same
    simp [fresh]
  · simp [same]

theorem discard_enrolled {n : Node} {s : SessionId} {ses : Session} {c : Context}
    (found : n.session? s = some ses) (fresh : ses.transactions.index.get? c.key = none) :
    (n.modify s fun ses => { ses with transactions := ses.transactions.enroll c }).discard s
      ses.transactions.contexts.length c = n.abandoned s c := by
  unfold discard modifyContext deleteContext abandoned
  rw [modify_modify, modify_modify]
  refine modify_congr fun ses' found' => ?_
  cases Option.some.inj (found.symm.trans found')
  have contexts : (ses.transactions.contexts ++ [{ c with slot := c.slot.take.2 }]).modify
      ses.transactions.contexts.length (fun c => { c.closeCursors with slot := c.slot.drop }) =
        ses.transactions.contexts ++ [{ c.closeCursors with slot := c.slot.drop }] :=
    modify_concat ..
  have index : (ses.transactions.index.insert c.key ses.transactions.contexts.length).erase
      (contextKey c.channel c.tx) = ses.transactions.index := erase_insert fresh _
  simp only [Function.comp, Transactions.enroll, Transactions.bury, Transactions.modify,
    Transactions.delete, contexts, index]

theorem begun_begin (n : Node) (s : SessionId) (c : Context) (m : Message) (origin : Origin) :
    Begun n s c m origin (n.begin s c m origin).1 (n.begin s c m origin).2 := by
  cases found : n.session? s with
  | none =>
    simp only [begin, Node.enroll, found]
    exact .missing found
  | some ses =>
    cases taken : ses.transactions.index.contains c.key with
    | true =>
      simp only [begin, Node.enroll, found, Transactions.create, taken, if_true]
      exact .duplicate found taken
    | false =>
      have fresh := KeyMap.contains_eq_false_iff.1 taken
      have found' := session?_modify found
        (f := fun ses => { ses with transactions := ses.transactions.enroll c })
      by_cases off : ses.outbound = .stopped
      · simp only [begin, enroll_of_create m.tx found fresh, enqueue_off _ found' off,
          discard_enrolled found fresh]
        exact .stopped found fresh off
      · simp only [begin, enroll_of_create m.tx found fresh, enqueue_on _ found' off,
          modify_modify]
        exact .waits found fresh off

/-! ## Asking from outside -/

/-- What asking for an execution from outside comes to. Its context is one of those in `P`, and the
contract is sent a message of the given kind. -/
inductive Started (n : Node) (s : SessionId) (label : String) (kind : MessageKind)
    (P : Context → Prop) : Node → Prop
  | refused (e : SessionError) :
      Started n s label kind P { n with results := n.results ++ [(label, .error e)] }
  | stopped {ses : Session} {c : Context} (e : SessionError) (found : n.session? s = some ses)
      (fresh : ses.transactions.index.get? c.key = none) (off : ses.outbound = .stopped)
      (given : P c) : Started n s label kind P
        { n.abandoned s c with results := (n.abandoned s c).results ++ [(label, .error e)] }
  | waits {ses : Session} {c : Context} (m : Message) (found : n.session? s = some ses)
      (fresh : ses.transactions.index.get? c.key = none) (on : ses.outbound ≠ .stopped)
      (given : P c) (asked : m.kind = kind) :
      Started n s label kind P (n.began s ses c m (.caller label))

theorem started_begin (n : Node) (s : SessionId) (label : String) {c : Context} (m : Message)
    {P : Context → Prop} (given : P c) : Started n s label m.kind P
      (match n.begin s c m (.caller label) with
      | (.ok (), n') => n'
      | (.error e, n') => { n' with results := n'.results ++ [(label, .error e)] }) := by
  have begun := begun_begin n s c m (.caller label)
  generalize n.begin s c m (.caller label) = r at begun ⊢
  obtain ⟨outcome, n'⟩ := r
  cases begun with
  | missing | duplicate => exact .refused _
  | stopped found fresh off => exact .stopped _ found fresh off given
  | waits found fresh on => exact .waits m found fresh on given rfl

theorem started_execute (n : Node) (s : SessionId) (label channel : String) (m : Message)
    (signedProposal : Option SignedProposal) (proposal : Option Proposal) :
    Started n s label m.kind (fun c => ∃ tx, c = n.newContext channel tx signedProposal proposal)
      (n.execute s label channel m signedProposal proposal) := by
  unfold execute
  cases attached : attachProposal { MessageDraft.ofMessage m with channel := some channel }
    signedProposal proposal with
  | error e => exact .refused e
  | ok m' =>
    have kind : m.kind = m'.kind := Option.some.inj (kind_of_attachProposal attached)
    rw [kind]
    exact started_begin n s label m' ⟨m'.tx, rfl⟩

theorem started_run (n : Node) (s : SessionId) (label : String) (i : Invocation) :
    Started n s label i.message.kind (fun c => ∃ m, called i = .ok (m, c)) (n.run s label i) := by
  unfold run beginCall
  cases made : called i with
  | error e => exact .refused e
  | ok mc =>
    rw [← kind_of_called made]
    exact started_begin n s label mc.1 ⟨mc.1, rfl⟩

/-! ## Beginning a handshake -/

/-- A handshake that goes on. -/
def shaking (n : Node) (s : SessionId) (c : Context) (m : Message) : Node :=
  n.modify s fun ses =>
    { ses with
      transactions := ses.transactions.enroll c
      commands := ses.commands ++ [.next { message := m, forward := true, sync := true }] }

inductive Readied (n : Node) (s : SessionId) (c : Context) : Except SessionError Nat → Node → Prop
  | refused (e : SessionError) : Readied n s c (.error e) n
  | stopped {ses : Session} (found : n.session? s = some ses)
      (fresh : ses.transactions.index.get? c.key = none) (off : ses.outbound = .stopped) :
      Readied n s c (.error .sessionClosed) (n.modify s fun ses =>
        { ses with transactions := ses.transactions.bury { c with slot := c.slot.take.2 } })
  | waits {ses : Session} (m : Message) (found : n.session? s = some ses)
      (fresh : ses.transactions.index.get? c.key = none) (on : ses.outbound ≠ .stopped)
      (kind : m.kind = .ready) (key : m.key = c.key) :
      Readied n s c (.ok ses.transactions.contexts.length) (n.shaking s c m)

theorem key_of_attachProposal {d : MessageDraft} {m : Message}
    {signedProposal : Option SignedProposal} {proposal : Option Proposal}
    (h : attachProposal d signedProposal proposal = .ok m) :
    m.key = contextKey (d.channel.getD "") (d.tx.getD "") := by
  have built {d' : MessageDraft} (h : d'.build.mapError SessionError.draft = .ok m) :
      m.key = contextKey (d'.channel.getD "") (d'.tx.getD "") := by
    unfold MessageDraft.build at h
    split at h
    · cases h
    · cases h
      rfl
  unfold attachProposal at h
  split at h
  · cases h
  · exact (built h :)
  · exact built h

theorem delete_enrolled {n : Node} {s : SessionId} {ses : Session} {c : Context}
    (found : n.session? s = some ses) (fresh : ses.transactions.index.get? c.key = none) :
    (n.modify s fun ses => { ses with transactions := ses.transactions.enroll c }).deleteContext s
      c.channel c.tx = n.modify s fun ses =>
        { ses with transactions := ses.transactions.bury { c with slot := c.slot.take.2 } } := by
  unfold deleteContext
  rw [modify_modify]
  refine modify_congr fun ses' found' => ?_
  cases Option.some.inj (found.symm.trans found')
  have index : (ses.transactions.index.insert c.key ses.transactions.contexts.length).erase
      (contextKey c.channel c.tx) = ses.transactions.index := erase_insert fresh _
  simp only [Function.comp, Transactions.enroll, Transactions.bury, Transactions.delete, index]

theorem readied_ready (n : Node) (s : SessionId) (channel tx : String)
    (signedProposal : Option SignedProposal) (proposal : Option Proposal) :
    Readied n s (n.newContext channel tx signedProposal proposal)
      (n.ready s channel tx signedProposal proposal).1
      (n.ready s channel tx signedProposal proposal).2 := by
  unfold ready
  generalize given : n.newContext channel tx signedProposal proposal = c
  obtain ⟨rfl, rfl⟩ : c.channel = channel ∧ c.tx = tx := given ▸ ⟨rfl, rfl⟩
  cases attached : attachProposal { kind := some .ready, channel := some c.channel, tx := some c.tx }
    signedProposal proposal with
  | error e => exact .refused e
  | ok m =>
    have kind : .ready = m.kind := Option.some.inj (kind_of_attachProposal attached)
    have key : m.key = c.key := key_of_attachProposal attached
    cases found : n.session? s with
    | none =>
      simp only [Node.enroll, found]
      exact .refused _
    | some ses =>
      cases taken : ses.transactions.index.contains c.key with
      | true =>
        simp only [Node.enroll, found, Transactions.create, taken, if_true]
        exact .refused _
      | false =>
        have fresh := KeyMap.contains_eq_false_iff.1 taken
        have found' := session?_modify found
          (f := fun ses => { ses with transactions := ses.transactions.enroll c })
        by_cases off : ses.outbound = .stopped
        · simp only [enroll_of_create c.tx found fresh, enqueue_off _ found' off,
            delete_enrolled found fresh]
          exact .stopped found fresh off
        · simp only [enroll_of_create c.tx found fresh, enqueue_on _ found' off, modify_modify]
          exact .waits m found fresh off kind.symm key

end Node

end ContractNode
