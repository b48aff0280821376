import ContractNode.Proofs.Reached
import ContractNode.Proofs.Verdicts

/-!
# Transactions that are refused

A transaction begins on a session with an execution for a caller, with a call, or with a handshake.
A session refuses one for three reasons, which are looked for in this order: a proposal that nobody
has signed, a context that the transaction has already, and the end of the session. The last one is
noticed only after a context was registered, which is then taken back.

* `Opening`, `Node.opens` : what a transaction begins with, and what comes of it;
* `Session.refusal?` : why a session refuses to begin a transaction, if it does;
* `Opened`, `opened_opens` : the cases of `opens`;
* `Node.AsBefore` : nothing is different but for contexts that are dead already;
* `Node.Concludes`, `concludes_of_move` : an execution that has begun is not refused later;
* `opens_spec` : what is refused, why, and what that leaves behind.
-/

namespace ContractNode

/-! ## What a transaction begins with -/

/-- What a transaction begins with. -/
inductive Opening
  /-- An execution on a channel of the node. -/
  | execute (channel : String) (m : Message) (signedProposal : Option SignedProposal)
      (proposal : Option Proposal)
  /-- A call, which brings its rights. -/
  | call (i : Invocation)
  /-- A handshake. -/
  | ready (channel tx : String) (signedProposal : Option SignedProposal)
      (proposal : Option Proposal)

namespace Opening

def channel : Opening → String
  | .execute channel .. | .ready channel .. => channel
  | .call i => i.message.channel

def tx : Opening → String
  | .execute _ m .. => m.tx
  | .call i => i.message.tx
  | .ready _ tx .. => tx

def isUnsigned : Opening → Bool
  | .execute _ _ signedProposal proposal | .ready _ _ signedProposal proposal =>
    proposal.isSome && signedProposal.isNone
  | .call i => i.proposal.isSome && i.signedProposal.isNone

/-- Whether an execution waits for the contract, or the caller does. -/
def isAwaited : Opening → Bool
  | .ready .. => false
  | .execute .. | .call .. => true

/-- A caller from outside begins a transaction. -/
def act (o : Opening) (s : SessionId) (label : String) : Act :=
  match o with
  | .execute channel m signedProposal proposal => .execute s label channel m signedProposal proposal
  | .call i => .run s label i
  | .ready channel tx signedProposal proposal => .ready s channel tx signedProposal proposal

end Opening

def Session.refusal? (ses : Session) (o : Opening) : Option SessionError :=
  if o.isUnsigned then some .missingSignedProposal
  else if ses.transactions.exists? o.channel o.tx then some (.duplicateTransaction o.tx)
  else if ses.phase = .ended then some .sessionClosed
  else none

namespace Node

def opens (n : Node) (s : SessionId) (origin : Origin) : Opening → Except SessionError Unit × Node
  | .execute channel m signedProposal proposal =>
    match attachProposal { MessageDraft.ofMessage m with channel := some channel } signedProposal
      proposal with
    | .error e => (.error e, n)
    | .ok m' => n.begin s (n.newContext channel m'.tx signedProposal proposal) m' origin
  | .call i => n.beginCall s i origin
  | .ready channel tx signedProposal proposal =>
    match n.ready s channel tx signedProposal proposal with
    | (r, n') => (r.map fun _ => (), n')

/-- A caller from outside is told that its execution was refused. -/
def told (label : String) : Except SessionError Unit × Node → Node
  | (.ok (), n) => n
  | (.error e, n) => { n with results := n.results ++ [(label, .error e)] }

theorem act_opening (n : Node) (s : SessionId) (label : String) (o : Opening) :
    n.act (o.act s label) = if o.isAwaited then told label (n.opens s (.caller label) o)
      else (n.opens s (.caller label) o).2 := by
  cases o with
  | execute | call | ready => rfl

/-- What it comes to that a transaction is to begin. -/
inductive Opened (n : Node) (s : SessionId) (origin : Origin) (o : Opening) (ses : Session) :
    Except SessionError Unit → Node → Prop
  | unsigned (missing : o.isUnsigned = true) :
      Opened n s origin o ses (.error .missingSignedProposal) n
  | duplicate (signed : o.isUnsigned = false)
      (taken : ses.transactions.exists? o.channel o.tx = true) :
      Opened n s origin o ses (.error (.duplicateTransaction o.tx)) n
  | stopped (dead : Context) (signed : o.isUnsigned = false)
      (fresh : ses.transactions.exists? o.channel o.tx = false) (off : ses.outbound = .stopped) :
      Opened n s origin o ses (.error .sessionClosed) (n.modify s fun ses =>
        { ses with transactions := ses.transactions.bury dead })
  | begins {n' : Node} (signed : o.isUnsigned = false)
      (fresh : ses.transactions.exists? o.channel o.tx = false) (on : ses.outbound ≠ .stopped)
      (waits : o.isAwaited = true → ∃ w, n'.calls = n.calls ++ [w] ∧ w.session = s ∧
        w.origin = origin) (results : n'.results = n.results) :
      Opened n s origin o ses (.ok ()) n'

section Opened

variable {n : Node} {s : SessionId} {ses : Session} {origin : Origin} {o : Opening}

/-- A draft of some kind can be sent, unless its proposal is not signed. -/
theorem attachProposal_eq {d : MessageDraft} {kind : MessageKind} (given : d.kind = some kind)
    (signedProposal : Option SignedProposal) (proposal : Option Proposal) :
    (attachProposal d signedProposal proposal = .error .missingSignedProposal ∧
      (proposal.isSome && signedProposal.isNone) = true) ∨
    ∃ m, attachProposal d signedProposal proposal = .ok m ∧ m.channel = d.channel.getD "" ∧
      m.tx = d.tx.getD "" ∧ (proposal.isSome && signedProposal.isNone) = false := by
  have built (d : MessageDraft) (given : d.kind = some kind) : ∃ m,
      d.build.mapError SessionError.draft = .ok m ∧ m.channel = d.channel.getD "" ∧
        m.tx = d.tx.getD "" := by
    simp only [MessageDraft.build, given]
    exact ⟨_, rfl, rfl, rfl⟩
  cases proposal with
  | none =>
    obtain ⟨m, attached, channel, tx⟩ := built d given
    exact .inr ⟨m, attached, channel, tx, rfl⟩
  | some p =>
    cases signedProposal with
    | none => exact .inl ⟨rfl, rfl⟩
    | some sp =>
      obtain ⟨m, attached, channel, tx⟩ := built { d with proposal := some sp } given
      exact .inr ⟨m, attached, channel, tx, rfl⟩

theorem opened_begin (found : n.session? s = some ses) {c : Context} {m : Message}
    (signed : o.isUnsigned = false) (channel : c.channel = o.channel) (tx : c.tx = o.tx)
    (same : m.tx = o.tx) :
    Opened n s origin o ses (n.begin s c m origin).1 (n.begin s c m origin).2 := by
  have known : ses.transactions.exists? o.channel o.tx = ses.transactions.index.contains c.key := by
    rw [← channel, ← tx]
    rfl
  have begun := begun_begin n s c m origin
  generalize n.begin s c m origin = p at begun ⊢
  obtain ⟨outcome, n'⟩ := p
  cases begun with
  | missing none =>
    rw [found] at none
    cases none
  | duplicate found' taken =>
    cases Option.some.inj (found.symm.trans found')
    rw [same]
    exact .duplicate signed (known.trans taken)
  | stopped found' fresh off =>
    cases Option.some.inj (found.symm.trans found')
    exact .stopped _ signed (known.trans (KeyMap.contains_eq_false_iff.2 fresh)) off
  | waits found' fresh on =>
    cases Option.some.inj (found.symm.trans found')
    exact .begins signed (known.trans (KeyMap.contains_eq_false_iff.2 fresh)) on
      (fun _ => ⟨_, rfl, rfl, rfl⟩) rfl

theorem opened_opens (n : Node) (origin : Origin) (o : Opening) (found : n.session? s = some ses) :
    Opened n s origin o ses (n.opens s origin o).1 (n.opens s origin o).2 := by
  cases o with
  | execute channel m signedProposal proposal =>
    rcases attachProposal_eq (d := { MessageDraft.ofMessage m with channel := some channel }) rfl
      signedProposal proposal with ⟨attached, missing⟩ | ⟨m', attached, _, tx, signed⟩
    · simp only [opens, attached]
      exact .unsigned missing
    · simp only [opens, attached]
      exact opened_begin found signed rfl tx tx
  | call i =>
    rcases attachProposal_eq (d := MessageDraft.ofMessage i.message) rfl i.signedProposal i.proposal
      with ⟨attached, missing⟩ | ⟨m, attached, channel, tx, signed⟩
    · simp only [opens, beginCall, called, attached]
      exact .unsigned missing
    · simp only [opens, beginCall, called, attached]
      exact opened_begin found signed channel tx tx
  | ready channel tx signedProposal proposal =>
    rcases attachProposal_eq (d := { kind := some .ready, channel := some channel, tx := some tx })
      rfl signedProposal proposal with ⟨attached, missing⟩ | ⟨m, attached, _, _, signed⟩
    · simp only [opens, ready, attached]
      exact .unsigned missing
    simp only [opens, ready, attached]
    generalize given : n.newContext channel tx signedProposal proposal = c
    obtain ⟨rfl, rfl⟩ : c.channel = channel ∧ c.tx = tx := given ▸ ⟨rfl, rfl⟩
    cases taken : ses.transactions.index.contains c.key with
    | true =>
      simp only [Node.enroll, found, Transactions.create, taken, if_true]
      exact .duplicate signed taken
    | false =>
      have fresh := KeyMap.contains_eq_false_iff.1 taken
      have found' := session?_modify found
        (f := fun ses => { ses with transactions := ses.transactions.enroll c })
      by_cases off : ses.outbound = .stopped
      · simp only [enroll_of_create c.tx found fresh, enqueue_off _ found' off,
          delete_enrolled found fresh]
        exact .stopped _ signed taken off
      · simp only [enroll_of_create c.tx found fresh, enqueue_on _ found' off, modify_modify]
        exact .begins signed taken off (fun awaited => absurd awaited Bool.false_ne_true) rfl

end Opened

/-! ## What a refusal leaves behind -/

end Node

/-- Contexts that nobody has any use for are all that was added. -/
structure Transactions.Padded (t t' : Transactions) : Prop where
  index : t'.index = t.index
  markers : t'.markers = t.markers
  contexts : ∃ dead, t'.contexts = t.contexts ++ dead

/-- The context that is registered under a key, with its slot and its cursors. -/
def Transactions.registered? (t : Transactions) (k : String) : Option Context :=
  (t.index.get? k).bind t.context?

namespace Transactions.Padded

variable {t t' : Transactions}

theorem refl (t : Transactions) : t.Padded t := ⟨rfl, rfl, [], (List.append_nil _).symm⟩

theorem bury (t : Transactions) (c : Context) : t.Padded (t.bury c) := ⟨rfl, rfl, [c], rfl⟩

theorem context? (h : t.Padded t') {c : Nat} {ctx : Context} (known : t.context? c = some ctx) :
    t'.context? c = some ctx := by
  obtain ⟨dead, contexts⟩ := h.contexts
  unfold Transactions.context? at known ⊢
  rw [contexts]
  exact (List.getElem?_append_left (List.getElem?_eq_some_iff.1 known).1).trans known

theorem registered? (h : t.Padded t') (sound : t.Sound) (k : String) :
    t'.registered? k = t.registered? k := by
  unfold Transactions.registered?
  rw [h.index]
  cases registered : t.index.get? k with
  | none => rfl
  | some c =>
    obtain ⟨ctx, known, _⟩ := sound.indexed k c registered
    exact (h.context? known).trans known.symm

end Transactions.Padded

namespace Node

/-- Nothing is different but for answers to callers from outside, and for contexts of one session
that nobody has any use for: those that are registered there are the same, with their slots and their
cursors. -/
structure AsBefore (n : Node) (s : SessionId) (ses : Session) (n' : Node) : Prop where
  rest : n' = { n with sessions := n'.sessions, results := n'.results }
  others : ∀ t, s ≠ t → n'.session? t = n.session? t
  session : ∃ transactions, n'.session? s = some { ses with transactions } ∧
    ses.transactions.Padded transactions ∧
      ∀ k, transactions.registered? k = ses.transactions.registered? k
  contexts : ∀ t c ctx, n.context? t c = some ctx → n'.context? t c = some ctx

namespace AsBefore

variable {n n' : Node} {s : SessionId} {ses : Session}

theorem refl (found : n.session? s = some ses) : AsBefore n s ses n :=
  ⟨rfl, fun _ _ => rfl, ⟨_, found, .refl _, fun _ => rfl⟩, fun _ _ _ known => known⟩

theorem bury (sound : n.Sound) (found : n.session? s = some ses) (c : Context) :
    AsBefore n s ses (n.modify s fun ses =>
      { ses with transactions := ses.transactions.bury c }) := by
  have padded : ses.transactions.Padded (ses.transactions.bury c) := .bury ..
  refine ⟨rfl, fun t other => (session?_modify_if ..).trans (if_neg other),
    ⟨_, session?_modify found, padded, padded.registered? (sound.transactions s ses found)⟩,
    fun t no ctx there => ?_⟩
  obtain ⟨ses', found', known⟩ := context?_eq_some_iff.1 there
  refine context?_eq_some_iff.2 ?_
  by_cases same : s = t
  · subst same
    exact ⟨_, session?_modify found', ses'.transactions.context?_of_bury known⟩
  · exact ⟨ses', (session?_modify_if ..).trans ((if_neg same).trans found'), known⟩

theorem answered (h : AsBefore n s ses n') (results : List (String × Except SessionError Message)) :
    AsBefore n s ses { n' with results } :=
  ⟨by rw [h.rest], h.others, h.session, h.contexts⟩

/-- Nothing can go on where nothing could before. -/
theorem atRest (h : AsBefore n s ses n') (found : n.session? s = some ses) (sound : n.Sound)
    (rest : n.AtRest) : n'.AtRest := by
  obtain ⟨waiting, quiet⟩ := atRest_iff.1 rest
  have gates : n'.gates = n.gates := by rw [h.rest]
  have calls : n'.calls = n.calls := by rw [h.rest]
  refine atRest_iff.2 ⟨fun call waits => finish?_eq_none_iff.2 fun ctx' known' => ?_,
    fun t ses' found' => ?_⟩
  · rw [calls] at waits
    obtain ⟨ctx, known, _⟩ := sound.waits call waits
    obtain rfl := Option.some.inj ((h.contexts _ _ _ known).symm.trans known')
    exact finish?_eq_none_iff.1 (waiting call waits) ctx known
  · rw [gates]
    by_cases same : s = t
    · subst same
      obtain ⟨transactions, found'', _⟩ := h.session
      cases Option.some.inj (found'.symm.trans found'')
      obtain ⟨commands, pool, dials, parked, inbox⟩ := quiet s ses found
      exact ⟨commands, pool, dials, parked, inbox⟩
    · exact quiet t ses' ((h.others t same).symm.trans found')

end AsBefore

/-! ## Executions that have begun -/

structure Awaits (n n' : Node) : Prop where
  calls : ∀ call ∈ n.calls, call ∈ n'.calls

theorem telling_awaits : Telling Awaits where
  refl n := ⟨fun _ waits => waits⟩
  trans h h' := ⟨fun call waits => h'.calls call (h.calls call waits)⟩
  outside _ calls _ _ := ⟨calls⟩
  aside _ := ⟨fun _ waits => waits⟩
  append _ := ⟨fun _ waits => waits⟩
  bury _ := ⟨fun _ waits => waits⟩
  enroll _ _ _ := ⟨fun _ waits => waits⟩
  notify _ _ := ⟨fun _ waits => waits⟩
  farewell n t := by
    have same : ((n.farewelled t).closed t).calls = n.calls := (touches_closed ..).calls
    exact ⟨fun _ waits => same ▸ waits⟩
  polled n t c := ⟨fun _ waits => waits⟩

/-- An execution waits no longer: it returns with a message, or with the error of its timeout. -/
def Concludes (call : Call) (n n' : Node) : Prop :=
  (∃ m, Returns call m n n') ∨ ∃ ctx, n.context? call.session call.context = some ctx ∧
    n' = (n.released call ctx fun c => { c.closeCursors with slot := c.slot.drop }).deliver
      call.origin (.error (.timeout ctx.tx))

variable {P : Act → Prop} {n n' : Node}

theorem awaits_move (move : Move P n n') :
    Awaits n n' ∨ ∃ call ∈ n.calls, n.finish? call = some n' ∨ n' = n.expire call := by
  rcases telling_awaits.move move with kept | ⟨t, m, _, rfl⟩ | ⟨t, took⟩ | ⟨t, channel, tx, rfl⟩ |
    waits
  · exact .inl kept
  · exact .inl ⟨fun _ waits => waits⟩
  · refine .inl (telling_awaits.toFrame.work? took fun job c ctx r n₁ n₂ _ _ _ turning => ?_)
    cases turning with
    | opens | advances | closes => exact ⟨fun _ waits => waits⟩
  · exact .inl ⟨fun _ waits => waits⟩
  · exact .inr waits

/-- Whatever happens, an execution goes on to wait until it returns with a message, or with the error
of its timeout. -/
theorem concludes_of_move (sound : n.Sound) (move : Move P n n') {call : Call}
    (waits : call ∈ n.calls) : call ∈ n'.calls ∨ Concludes call n n' := by
  have others {call' : Call} (waits' : call' ∈ n.calls) (other : call ≠ call') {ctx : Context}
      {f : Context → Context} {result : Except SessionError Message}
      (left : n' = (n.released call' ctx f).deliver call'.origin result) : call ∈ n'.calls := by
    have calls : n'.calls = (n.forget call').calls := left ▸ (touches_deliver ..).calls
    rw [calls, calls_forget sound waits']
    exact List.mem_filter.2 ⟨waits, decide_eq_true other⟩
  rcases awaits_move move with kept | ⟨call', waits', finished | expired⟩
  · exact .inl (kept.calls call waits)
  · by_cases same : call = call'
    · subst same
      exact .inr (.inl (returns_of_finish? waits finished))
    · obtain ⟨ctx, m, _, _, left⟩ := finish?_cases finished
      exact .inl (others waits' same left)
  · obtain ⟨ctx, known, _⟩ := sound.waits call' waits'
    rcases n.expire_cases call' with ⟨unknown, _⟩ | ⟨ctx', known', left⟩
    · rw [known] at unknown
      cases unknown
    · by_cases same : call = call'
      · subst same
        exact .inr (.inr ⟨ctx', known', expired.trans left⟩)
      · exact .inl (others waits' same (expired.trans left))

/-! ## What is refused -/

section Refusals

variable {s : SessionId} {ses : Session} {origin : Origin} {o : Opening}
  {r : Except SessionError Unit}

/-- On a node at rest, a session has stopped its outbound loop just when it has ended. -/
theorem stopped_iff_ended {channels historyless system : List String} {drill : Drill}
    (reached : Moves P (withChannels channels historyless system drill) n) (rest : n.AtRest)
    (found : n.session? s = some ses) : ses.outbound = .stopped ↔ ses.phase = .ended := by
  refine ⟨fun stopped => ?_, fun ended => ?_⟩
  · by_contra live
    exact not_astray_of_moves reached found ⟨stopped, live⟩
  · by_contra on
    exact live_of_on (closing_of_moves reached) rest found on ses found ended

theorem Opened.outcome (opened : Opened n s origin o ses r n')
    (ends : ses.outbound = .stopped ↔ ses.phase = .ended) :
    r = (ses.refusal? o).elim (.ok ()) .error := by
  unfold Session.refusal?
  cases opened with
  | unsigned missing => simp [missing]
  | duplicate signed taken => simp [signed, taken]
  | stopped dead signed fresh off => simp [signed, fresh, ends.1 off]
  | begins signed fresh on => simp [signed, fresh, mt ends.2 on]

theorem Opened.asBefore {e : SessionError} (opened : Opened n s origin o ses (.error e) n')
    (sound : n.Sound) (found : n.session? s = some ses) :
    AsBefore n s ses n' ∧ n'.results = n.results := by
  cases opened with
  | unsigned | duplicate => exact ⟨.refl found, rfl⟩
  | stopped dead => exact ⟨.bury sound found dead, rfl⟩

/-- A session is asked to begin a transaction while the node is at rest. It refuses to for a proposal
that is not signed, else for a context that the transaction has already, else since it has ended, and
for nothing else. A refusal leaves everything as it was, the executions that wait under the same key
included, but for the answer to a caller from outside who waits for one. And where an execution has
begun, none of these errors is what it comes to: it waits until it returns with a message, or with
the error of its timeout. -/
theorem opens_spec {channels historyless system : List String} {drill : Drill}
    (reached : Moves P (withChannels channels historyless system drill) n) (rest : n.AtRest)
    (found : n.session? s = some ses) :
    (∀ origin o, (n.opens s origin o).1 = (ses.refusal? o).elim (.ok ()) .error) ∧
    (∀ origin o e, ses.refusal? o = some e →
      AsBefore n s ses (n.opens s origin o).2 ∧ (n.opens s origin o).2.results = n.results) ∧
    (∀ label o e, ses.refusal? o = some e →
      AsBefore n s ses (n.step (o.act s label)) ∧ (n.step (o.act s label)).results =
        n.results ++ if o.isAwaited then [(label, .error e)] else []) ∧
    (∀ label o, ses.refusal? o = none →
      (o.isAwaited → ∃ w, (n.act (o.act s label)).calls = n.calls ++ [w] ∧ w.session = s ∧
        w.origin = .caller label) ∧ (n.act (o.act s label)).results = n.results) ∧
    ∀ n₁ n₂ call, Moves P (withChannels channels historyless system drill) n₁ → Move P n₁ n₂ →
      call ∈ n₁.calls → call ∈ n₂.calls ∨ Concludes call n₁ n₂ := by
  have sound := sound_moves (sound_withChannels ..) reached
  have ends := stopped_iff_ended reached rest found
  have outcome (origin : Origin) (o : Opening) :=
    (opened_opens n origin o found).outcome ends
  have left (origin : Origin) (o : Opening) (e : SessionError) (refused : ses.refusal? o = some e) :
      (n.opens s origin o).1 = .error e ∧ AsBefore n s ses (n.opens s origin o).2 ∧
        (n.opens s origin o).2.results = n.results := by
    have opened := opened_opens n origin o found
    have failed : (n.opens s origin o).1 = .error e := by rw [outcome, refused]; rfl
    rw [failed] at opened
    exact ⟨failed, opened.asBefore sound found⟩
  refine ⟨outcome, fun origin o e refused => (left origin o e refused).2,
    fun label o e refused => ?_, fun label o begins => ?_, fun n₁ n₂ call before move waits => ?_⟩
  · obtain ⟨failed, kept, results⟩ := left (.caller label) o e refused
    generalize given : n.opens s (.caller label) o = p at failed kept results
    obtain ⟨outcome, n'⟩ := p
    cases failed
    have act : n.act (o.act s label) =
        { n' with results := n.results ++ if o.isAwaited then [(label, .error e)] else [] } := by
      rw [act_opening, given]
      cases o.isAwaited with
      | true => rw [← results]; rfl
      | false => rw [← results]; simp
    have kept' := kept.answered (n.results ++ if o.isAwaited then [(label, .error e)] else [])
    rw [step, act, settle_of_atRest (kept'.atRest found sound rest)]
    exact ⟨kept', rfl⟩
  · have opened := opened_opens n (.caller label) o found
    have done : (n.opens s (.caller label) o).1 = .ok () := by rw [outcome, begins]; rfl
    rw [act_opening]
    generalize n.opens s (.caller label) o = p at opened done ⊢
    obtain ⟨outcome, n'⟩ := p
    cases done
    cases opened with
    | begins signed fresh on waits results =>
      simp only [told, ite_self]
      exact ⟨waits, results⟩
  · exact concludes_of_move (sound_moves (sound_withChannels ..) before) move waits

end Refusals

/-- While a contract runs a transaction, another execution of it is refused, and nothing else
happens. -/
theorem opens_spec_waitingRun :
    let n := (withChannels ["ch"] [] [] {}).steps waitingRun
    let o : Opening := .execute "ch" { kind := .transaction, tx := "t1" } none none
    n.calls = [⟨0, 0, .caller "a", none⟩] ∧ ∃ ses, n.session? 0 = some ses ∧
      AsBefore n 0 ses (n.step (o.act 0 "b")) ∧
        (n.step (o.act 0 "b")).results = [("b", .error (.duplicateTransaction "t1"))] := by
  intro n o
  have there : (n.session? 0).any (fun ses =>
      ses.refusal? o = some (.duplicateTransaction "t1")) = true := by decide +kernel
  obtain ⟨ses, found, refused⟩ := (Option.any_eq_true ..).1 there
  have reached : Moves (fun _ => True) (withChannels ["ch"] [] [] {}) n :=
    moves_steps fun _ _ => trivial
  have rest : n.AtRest := atRest_steps (atRest_withChannels ..) _
  have before : n.results = [] := List.isEmpty_iff.1 (by decide +kernel)
  obtain ⟨_, _, answers, _⟩ := opens_spec reached rest found
  obtain ⟨kept, results⟩ := answers "b" o _ (of_decide_eq_true refused)
  rw [before] at results
  exact ⟨by decide +kernel, ses, found, kept, results⟩

end Node

end ContractNode
