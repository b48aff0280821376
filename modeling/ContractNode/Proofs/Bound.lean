import ContractNode.Proofs.Sound

/-!
# The rights of contexts

Contexts come from outside or from calls, and what they may do with the ledger is settled when they
begin. A property of these rights that new contexts have, and that calls hand on, holds of every
registered context of a run.

* `Transactions.Every`, `Node.Every` : every registered context has a property;
* `Hereditary` : a property that new contexts have, and that calls hand on;
* `Context.Attested`, `hereditary_attested` : a context with a proposal has the signed one as well;
* `every_path`, `every_act` : what a node does keeps it;
* `Context.Bound`, `hereditary_bound` : a context writes on its own channel and for its own
  transaction, as long as whoever has calls run from outside gives them rights of that kind
  (`Act.isBound`);
* `Context.Local`, `hereditary_local` : a context reads and writes on its own channel, likewise
  (`Act.isLocal`).
-/

namespace ContractNode

/-! ## Transactions -/

namespace Transactions

/-- Every context that is registered has a property. -/
def Every (Q : Context → Prop) (t : Transactions) : Prop :=
  ∀ k c, t.index.get? k = some c → ∃ ctx, t.context? c = some ctx ∧ Q ctx

namespace Every

variable {Q : Context → Prop} {t t' : Transactions}

theorem empty : ({} : Transactions).Every Q := fun _ _ found => by cases found

theorem follows (badge : ∀ c c', Q c → c'.badge = c.badge → Q c') (h : t.Every Q)
    (f : t.Follows t') : t'.Every Q := by
  intro k c found
  rw [f.index] at found
  obtain ⟨ctx, known, holds⟩ := h k c found
  obtain ⟨ctx', known', goes⟩ := f.contexts c ctx known
  exact ⟨ctx', known', badge _ _ holds goes.badge⟩

theorem enroll (h : t.Every Q) {c : Context} (holds : Q { c with slot := c.slot.take.2 }) :
    (t.enroll c).Every Q := by
  intro k no found
  rw [show (t.enroll c).index = t.index.insert c.key t.contexts.length from rfl,
    KeyMap.get?_insert] at found
  split at found
  · cases found
    exact ⟨_, t.context?_enroll_self c, holds⟩
  · obtain ⟨ctx, known, holds⟩ := h k no found
    exact ⟨ctx, t.context?_of_enroll known, holds⟩

theorem delete (h : t.Every Q) (channel tx : String) : (t.delete channel tx).Every Q := by
  intro k c found
  rw [show (t.delete channel tx).index = t.index.erase (contextKey channel tx) from rfl,
    KeyMap.get?_erase] at found
  split at found
  · cases found
  · exact h k c found

theorem modify (h : t.Every Q) (c : Nat) {f : Context → Context} (kept : ∀ ctx, Q ctx → Q (f ctx)) :
    (t.modify c f).Every Q := by
  intro k no found
  obtain ⟨ctx, known, holds⟩ := h k no found
  rw [context?_modify, known]
  split
  · exact ⟨f ctx, rfl, kept ctx holds⟩
  · exact ⟨ctx, rfl, holds⟩

/-- The context that a transaction is found to have has the property. -/
theorem found (h : t.Every Q) {channel tx : String} {c : Nat} {ctx : Context}
    (registered : t.find? channel tx = some c) (known : t.context? c = some ctx) : Q ctx := by
  obtain ⟨_, same, holds⟩ := h _ c registered
  cases Option.some.inj (known.symm.trans same)
  exact holds

end Every

end Transactions

/-- There is no proposal without a signed one. -/
theorem attested_of_attachProposal {d : MessageDraft} {m : Message}
    {signedProposal : Option SignedProposal} {proposal : Option Proposal}
    (attached : attachProposal d signedProposal proposal = .ok m) :
    proposal.isSome = true → signedProposal.isSome = true := by
  unfold attachProposal at attached
  split at attached
  · cases attached
  · exact fun _ => rfl
  · exact fun none => by cases none

namespace Node

/-- Every context that is registered with a session has a property. -/
def Every (Q : Context → Prop) (n : Node) : Prop :=
  ∀ s ses, n.session? s = some ses → ses.transactions.Every Q

/-- A property of the rights of a context that new contexts have, those of calls if the caller's has
it, and those of calls from outside if these are among `A`. -/
structure Hereditary (A : Act → Prop) (Q : Context → Prop) : Prop where
  badge : ∀ c c', Q c → c'.badge = c.badge → Q c'
  new : ∀ (n : Node) channel tx signedProposal proposal,
    (proposal.isSome = true → signedProposal.isSome = true) →
      Q (n.newContext channel tx signedProposal proposal)
  call : ∀ {n : Node} {ctx c : Context} {m : Message} {spec : CallSpec}
    {rights : Simulator × Option Historian}, Q ctx →
      n.callRights ctx (spec.target ctx.channel) = .ok rights →
        called (invocation ctx spec rights) = .ok (m, c) → Q c
  run : ∀ {s : SessionId} {label : String} {i : Invocation} {m : Message} {c : Context},
    A (.run s label i) → called i = .ok (m, c) → Q c

section Every

variable {A : Act → Prop} {Q : Context → Prop} {n n' : Node}

theorem Every.modify (h : n.Every Q) (s : SessionId) {f : Session → Session}
    (kept : ∀ ses, n.session? s = some ses → ses.transactions.Every Q →
      (f ses).transactions.Every Q) : (n.modify s f).Every Q := by
  intro t ses found
  rcases session?_modify_cases found with ⟨rfl, ses', found', rfl⟩ | ⟨_, found⟩
  · exact kept ses' found' (h s ses' found')
  · exact h t ses found

theorem every_withChannels (channels historyless system : List String) (drill : Drill) :
    (withChannels channels historyless system drill).Every Q := fun _ _ found => by cases found

variable (heir : Hereditary A Q)

include heir

theorem every_touch (h : n.Every Q) (touches : Touches n n') : n'.Every Q := by
  intro s ses found
  have follows := touches.session found
  cases before : n.session? s with
  | none =>
    rw [before] at follows
    exact Transactions.Every.empty.follows heir.badge follows
  | some ses₀ =>
    rw [before] at follows
    exact (h s ses₀ before).follows heir.badge follows

theorem every_began (h : n.Every Q) (s : SessionId) (ses : Session) {c : Context}
    (m : Message) (origin : Origin) (holds : Q c) : (n.began s ses c m origin).Every Q :=
  h.modify s fun _ _ before => before.enroll (heir.badge _ _ holds rfl)

theorem every_released (h : n.Every Q) (call : Call) (ctx : Context)
    {f : Context → Context} (badge : ∀ ctx, (f ctx).badge = ctx.badge) :
    (n.released call ctx f).Every Q :=
  h.modify call.session fun _ _ before =>
    (before.modify call.context fun _ holds => heir.badge _ _ holds (badge _)).delete _ _

theorem every_effect (h : n.Every Q) (effect : Effect n n') : n'.Every Q := by
  cases effect with
  | touch touches => exact every_touch heir h touches
  | @begin s _ ses _ _ _ _ m _ _ _ found registered known righted _ made _ _ _ =>
    have claimed : (n.modify s (·.claim m.key)).Every Q :=
      every_touch heir h (.modify s fun ses _ => .marked ses.transactions _)
    have caller := (h s ses found).found registered known
    exact every_began heir claimed _ _ _ _ (heir.call caller righted made)
  | release waits known badge once touches =>
    exact every_touch heir (every_released heir h _ _ badge) touches
  | forget => exact h

theorem every_path (h : n.Every Q) (path : Path n n') : n'.Every Q := by
  induction path with
  | refl => exact h
  | tail _ deed ih => exact every_effect heir ih (effect_of_deed deed)

/-! ## What comes from outside -/

theorem every_started {s : SessionId} {label : String} {kind : MessageKind} {P : Context → Prop}
    (h : n.Every Q) (holds : ∀ c, P c → Q c) (started : Started n s label kind P n') :
    n'.Every Q := by
  cases started with
  | refused e => exact h
  | stopped e found fresh off given =>
    -- A context that is kept in the list only is not registered.
    exact h.modify s fun _ _ before k c found =>
      let ⟨ctx, known, holds⟩ := before k c found
      ⟨ctx, Transactions.context?_of_bury _ known, holds⟩
  | waits m found fresh on given => exact every_began heir h s _ m _ (holds _ given)

theorem every_ready (h : n.Every Q) (s : SessionId) (channel tx : String)
    (signedProposal : Option SignedProposal) (proposal : Option Proposal) :
    (n.ready s channel tx signedProposal proposal).2.Every Q := by
  have attached : (n.ready s channel tx signedProposal proposal).2 = n ∨
      (proposal.isSome = true → signedProposal.isSome = true) := by
    unfold ready
    cases attached : attachProposal { kind := some .ready, channel := some channel, tx := some tx }
        signedProposal proposal with
    | error e => exact .inl rfl
    | ok m => exact .inr (attested_of_attachProposal attached)
  rcases attached with same | attached
  · rw [same]
    exact h
  have holds := heir.new n channel tx signedProposal proposal attached
  have readied := readied_ready n s channel tx signedProposal proposal
  generalize n.ready s channel tx signedProposal proposal = r at readied
  obtain ⟨outcome, n'⟩ := r
  cases readied with
  | refused => exact h
  | stopped found fresh off =>
    exact every_touch heir h (.modify s fun ses _ => .bury _ CursorTable.once_empty)
  | waits m found fresh on =>
    exact h.modify s fun _ _ before => before.enroll (heir.badge _ _ holds rfl)

theorem every_execute (h : n.Every Q) (s : SessionId) (label channel : String) (m : Message)
    (signedProposal : Option SignedProposal) (proposal : Option Proposal) :
    (n.execute s label channel m signedProposal proposal).Every Q := by
  cases attached : attachProposal { MessageDraft.ofMessage m with channel := some channel }
      signedProposal proposal with
  | error e =>
    simp only [execute, attached]
    exact h
  | ok m' =>
    exact every_started heir h
      (fun _ ⟨_, made⟩ => made ▸ heir.new n _ _ _ _ (attested_of_attachProposal attached))
      (started_execute n s label channel m signedProposal proposal)

theorem every_poll (h : n.Every Q) (s : SessionId) (c : Nat) : (n.poll s c).2.Every Q := by
  rcases n.poll_cases s c with ⟨_, polls⟩ | ⟨ctx, _, polls⟩
  · rw [polls]
    exact h
  · rw [polls]
    exact h.modify s fun _ _ before => before.modify c fun _ holds => heir.badge _ _ holds rfl

theorem every_act (h : n.Every Q) {a : Act} (given : A a) : (n.act a).Every Q := by
  cases a with
  | handle s m => exact every_path heir h (path_handle n s m)
  | ready s channel tx signedProposal proposal =>
    exact every_ready heir h s channel tx signedProposal proposal
  | poll s c => exact every_poll heir h s c
  | deleteContext s channel tx => exact h.modify s fun _ _ before => before.delete channel tx
  | execute s label channel m signedProposal proposal =>
    exact every_execute heir h s label channel m signedProposal proposal
  | run s label i =>
    exact every_started heir h (fun _ ⟨_, made⟩ => heir.run given made) (started_run n s label i)
  | pass span => exact every_path heir h (path_pass n span)
  | _ => exact every_touch heir h (touches_act n rfl)

end Every

/-! ## Simulators -/

/-- The simulator that a new context gets is for its channel and its transaction. -/
theorem simulator_newContext {n : Node} {channel tx : String}
    {signedProposal : Option SignedProposal} {proposal : Option Proposal} {sim : Simulator}
    (right : (n.newContext channel tx signedProposal proposal).simulator = some sim) :
    sim = ⟨channel, tx⟩ := by
  change (n.ledger.simulator channel tx).toOption = some sim at right
  unfold Ledger.simulator Ledger.onChannel at right
  split at right
  · cases right
    rfl
  · cases right

theorem channel_historian? {n : Node} {channel : String} {h : Historian}
    (right : n.historian? channel = some h) : h.channel = channel := by
  unfold historian? Ledger.historian Ledger.onChannel at right
  split at right
  · cases right
  · split at right
    · cases right
      rfl
    · cases right

/-- A call gets the caller's rights on the caller's channel, and rights of its own on another. -/
theorem callRights_cases {n : Node} {ctx : Context} {target : ContractInstance}
    {rights : Simulator × Option Historian} (righted : n.callRights ctx target = .ok rights) :
    target.channel = ctx.channel ∧ ctx.simulator = some rights.1 ∧ rights.2 = ctx.historian ∨
      rights.1 = ⟨target.channel, ctx.tx⟩ ∧ rights.2 = n.historian? target.channel := by
  unfold callRights at righted
  split at righted
  · rename_i same
    cases right : ctx.simulator with
    | none =>
      rw [right] at righted
      cases righted
    | some sim =>
      rw [right] at righted
      cases righted
      exact .inl ⟨same, rfl, rfl⟩
  · unfold Ledger.simulator Ledger.onChannel at righted
    split at righted
    · cases righted
    · rename_i sim given
      cases righted
      split at given
      · cases given
        exact .inr ⟨rfl, rfl⟩
      · cases given

end Node

/-- The simulator of a context, if it has one, is for its own channel and transaction. -/
def Context.Bound (c : Context) : Prop := ∀ sim, c.simulator = some sim → sim = ⟨c.channel, c.tx⟩

/-- Whether a call that is run from outside comes with a simulator for the channel and the
transaction of its message, as those do that contracts make. -/
def Act.isBound : Act → Bool
  | .run _ _ i => i.simulator = ⟨i.message.channel, i.message.tx⟩
  | _ => true

theorem Node.hereditary_bound : Hereditary (·.isBound = true) Context.Bound where
  badge c c' h same := by
    simp only [Context.badge, Prod.mk.injEq] at same
    obtain ⟨channel, tx, simulator, -⟩ := same
    intro sim right
    rw [channel, tx]
    exact h sim (simulator ▸ right)
  new _ _ _ _ _ _ _ right := simulator_newContext right
  call {n ctx c m spec rights} bound righted made := by
    obtain ⟨channel, tx, rfl⟩ := eq_of_called made
    intro sim right
    cases right
    rw [channel, tx]
    rcases callRights_cases righted with ⟨same, right, _⟩ | ⟨right, _⟩
    · rw [show (invocation ctx spec rights).simulator = rights.1 from rfl, bound _ right, ← same]
      rfl
    · exact right
  run given made := by
    obtain ⟨channel, tx, rfl⟩ := eq_of_called made
    intro sim right
    cases right
    rw [of_decide_eq_true given, ← channel, ← tx]

/-- A context that was begun with a proposal was begun with the signed one as well. -/
def Context.Attested (c : Context) : Prop := c.proposal.isSome = true → c.signedProposal.isSome = true

theorem Context.attested_of_called {i : Invocation} {m : Message} {c : Context}
    (made : Node.called i = .ok (m, c)) : c.Attested := by
  unfold Node.called at made
  split at made
  · cases made
  · rename_i attached
    cases made
    exact attested_of_attachProposal attached

theorem Node.hereditary_attested : Hereditary (fun _ => True) Context.Attested where
  badge c c' h same := by
    simp only [Context.badge, Prod.mk.injEq] at same
    obtain ⟨-, -, -, -, signedProposal, proposal⟩ := same
    unfold Context.Attested
    rwa [signedProposal, proposal]
  new _ _ _ _ _ attested := attested
  call _ _ made := Context.attested_of_called made
  run _ made := Context.attested_of_called made

/-- What a context can do with the ledger, it can do on its own channel. -/
structure Context.Local (c : Context) : Prop where
  simulator : ∀ sim, c.simulator = some sim → sim.channel = c.channel
  historian : ∀ h, c.historian = some h → h.channel = c.channel

/-- Whether a call that is run from outside comes with rights on the channel of its message. -/
def Act.isLocal : Act → Bool
  | .run _ _ i => i.simulator.channel = i.message.channel ∧
    (i.historian.all fun h => h.channel = i.message.channel) = true
  | _ => true

theorem Node.hereditary_local : Hereditary (·.isLocal = true) Context.Local where
  badge c c' h same := by
    simp only [Context.badge, Prod.mk.injEq] at same
    obtain ⟨channel, tx, simulator, historian, -⟩ := same
    refine ⟨fun sim right => ?_, fun h' right => ?_⟩
    · rw [channel]
      exact h.simulator sim (simulator ▸ right)
    · rw [channel]
      exact h.historian h' (historian ▸ right)
  new n channel _ _ _ _ :=
    ⟨fun sim right => by rw [simulator_newContext right]; rfl, fun _ right => channel_historian? right⟩
  call {n ctx c m spec rights} kept righted made := by
    obtain ⟨channel, tx, rfl⟩ := eq_of_called made
    refine ⟨fun sim right => ?_, fun h right => ?_⟩
    · cases right
      rw [channel]
      rcases callRights_cases righted with ⟨same, right, _⟩ | ⟨right, _⟩
      · exact (kept.simulator _ right).trans same.symm
      · exact congrArg Simulator.channel right
    · rw [channel]
      change rights.2 = some h at right
      rcases callRights_cases righted with ⟨same, _, from_⟩ | ⟨_, from_⟩
      · exact (kept.historian h (from_ ▸ right)).trans same.symm
      · exact channel_historian? (from_ ▸ right)
  run {s label i m c} given made := by
    obtain ⟨channel, tx, rfl⟩ := eq_of_called made
    obtain ⟨simulator, historian⟩ := of_decide_eq_true given
    refine ⟨fun sim right => ?_, fun h right => ?_⟩
    · cases right
      exact simulator.trans channel.symm
    · rw [show i.historian = some h from right] at historian
      exact (of_decide_eq_true historian).trans channel.symm

end ContractNode
