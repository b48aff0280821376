import ContractNode.Proofs.Decoding
import ContractNode.Proofs.Holders
import ContractNode.Proofs.Reached
import ContractNode.Proofs.Verdicts

/-!
# Calls and what they return

A call begins an execution on the session that serves its target, and the message with which that
returns is the answer that the caller gets.

* `Node.Retains` : contexts stay what they are, and no execution waits twice in one
  (`retains_moves`);
* `Node.Term`, `Node.Carries` : what is due to a contract that stays connected is sent, once
  (`carries_of_moves`);
* `Placed.Asks`, `Placed.Entitles` : what the called contract is asked, and what it may do;
* `Placed.Repays` : the caller is sent what the execution returned with (`repays_of_returns`);
* `relayed_of_moves` : all of that, for any call;
* `unrelayed_of_missing` : calls that are not relayed.
-/

namespace ContractNode

namespace Node

variable {P : Act → Prop} {n n' n'' : Node} {s t : SessionId}

/-! ## Contexts that stay -/

/-- Contexts stay, with what was settled when they were made, and an execution that is new waits in
a context that is new. -/
structure Retains (n n' : Node) : Prop where
  contexts : ∀ s c ctx, n.context? s c = some ctx →
    ∃ ctx', n'.context? s c = some ctx' ∧ ctx'.badge = ctx.badge
  calls : ∀ call ∈ n'.calls, call ∈ n.calls ∨ n.context? call.session call.context = none

namespace Retains

theorem trans (h : Retains n n') (h' : Retains n' n'') : Retains n n'' := by
  refine ⟨fun s c ctx known => ?_, fun call waits => ?_⟩
  · obtain ⟨ctx', known', same⟩ := h.contexts s c ctx known
    obtain ⟨ctx'', known'', same'⟩ := h'.contexts s c ctx' known'
    exact ⟨ctx'', known'', same'.trans same⟩
  · rcases h'.calls call waits with before | fresh
    · exact h.calls call before
    · refine .inr (Option.eq_none_iff_forall_not_mem.2 fun ctx known => ?_)
      obtain ⟨ctx', known', _⟩ := h.contexts _ _ ctx known
      rw [fresh] at known'
      cases known'

theorem of_touches (touches : Touches n n') : Retains n n' := by
  refine ⟨fun s c ctx known => ?_, fun call waits => .inl (touches.calls ▸ waits)⟩
  obtain ⟨ctx', known', follows⟩ := context?_touch touches known
  exact ⟨ctx', known', follows.badge⟩

theorem refl (n : Node) : Retains n n := of_touches (.refl n)

theorem modify (n : Node) (t : SessionId) {f : Session → Session}
    (h : ∀ ses c ctx, ses.transactions.context? c = some ctx →
      ∃ ctx', (f ses).transactions.context? c = some ctx' ∧ ctx'.badge = ctx.badge) :
    Retains n (n.modify t f) := by
  refine ⟨fun s c ctx known => ?_, fun call waits => .inl waits⟩
  obtain ⟨ses, found, there⟩ := context?_eq_some_iff.1 known
  by_cases same : t = s
  · subst same
    obtain ⟨ctx', there', badge⟩ := h ses c ctx there
    exact ⟨ctx', context?_eq_some_iff.2 ⟨f ses, session?_modify found, there'⟩, badge⟩
  · refine ⟨ctx, context?_eq_some_iff.2 ⟨ses, ?_, there⟩, rfl⟩
    rw [session?_modify_if, if_neg same, found]

theorem began {ses : Session} (c : Context) (m : Message) (origin : Origin)
    (found : n.session? t = some ses) : Retains n (n.began t ses c m origin) := by
  refine ⟨fun s no ctx known => ⟨ctx, context?_began m origin known, rfl⟩, fun call waits => ?_⟩
  rcases List.mem_append.1 waits with before | new
  · exact .inl before
  · cases List.mem_singleton.1 new
    refine .inr (Option.eq_none_iff_forall_not_mem.2 fun ctx known => ?_)
    obtain ⟨ses', found', known⟩ := context?_eq_some_iff.1 known
    cases Option.some.inj (found.symm.trans found')
    exact absurd (List.getElem?_eq_some_iff.1 known).1 (Nat.lt_irrefl _)

theorem released (n : Node) (call : Call) (ctx : Context) {f : Context → Context}
    (badge : ∀ ctx, (f ctx).badge = ctx.badge) : Retains n (n.released call ctx f) := by
  have changed : Retains n (n.modify call.session fun ses =>
      { ses with
        transactions := (ses.transactions.modify call.context f).delete ctx.channel ctx.tx }) := by
    refine .modify n call.session fun ses c ctx' known => ?_
    show ∃ ctx'', (ses.transactions.modify call.context f).context? c = some ctx'' ∧ _
    rw [Transactions.context?_modify, known]
    split
    · exact ⟨f ctx', rfl, badge ctx'⟩
    · exact ⟨ctx', rfl, rfl⟩
  exact ⟨changed.contexts, fun _ waits => .inl (List.mem_of_mem_filter waits)⟩

end Retains

theorem retains_effect (effect : Effect n n') : Retains n n' := by
  cases effect with
  | touch touches => exact .of_touches touches
  | @begin s _ _ _ _ c' _ m m' _ _ _ _ _ _ _ _ found' _ _ =>
    have claimed : Touches n (n.modify s (·.claim m.key)) :=
      .modify s fun ses _ => .marked ses.transactions _
    exact (Retains.of_touches claimed).trans (.began c' m' _ found')
  | @release _ call ctx f _ _ badge _ touches =>
    exact (Retains.released n call ctx badge).trans (.of_touches touches)
  | forget =>
    exact ⟨(Retains.refl n).contexts, fun _ waits => .inl (List.mem_of_mem_filter waits)⟩

theorem retains_path (path : Path n n') : Retains n n' := by
  induction path with
  | refl => exact .refl _
  | tail _ deed ih => exact ih.trans (retains_effect (effect_of_deed deed))

theorem retains_bury (n : Node) (s : SessionId) (c : Context) : Retains n (n.modify s fun ses =>
    { ses with transactions := ses.transactions.bury c }) :=
  .modify n s fun ses _ ctx known => ⟨ctx, ses.transactions.context?_of_bury known, rfl⟩

theorem retains_started {label : String} {kind : MessageKind} {Q : Context → Prop}
    (started : Started n s label kind Q n') : Retains n n' := by
  cases started with
  | refused e => exact .of_touches (.outside rfl rfl)
  | stopped e found fresh off given =>
    exact (retains_bury n s _).trans (.of_touches (.outside rfl rfl))
  | @waits ses c m found => exact .began c m _ found

theorem retains_ready (n : Node) (s : SessionId) (channel tx : String)
    (signedProposal : Option SignedProposal) (proposal : Option Proposal) :
    Retains n (n.ready s channel tx signedProposal proposal).2 := by
  have readied := readied_ready n s channel tx signedProposal proposal
  generalize n.ready s channel tx signedProposal proposal = r at readied
  obtain ⟨outcome, n'⟩ := r
  cases readied with
  | refused e => exact .refl _
  | stopped => exact retains_bury n s _
  | waits =>
    exact .modify n s fun ses _ ctx known => ⟨ctx, ses.transactions.context?_of_enroll known, rfl⟩

theorem retains_act (n : Node) (a : Act) : Retains n (n.act a) := by
  cases a with
  | handle s m => exact retains_path (path_handle n s m)
  | ready s channel tx signedProposal proposal =>
    exact retains_ready n s channel tx signedProposal proposal
  | poll s c =>
    show Retains n (n.poll s c).2
    rcases n.poll_cases s c with ⟨_, polls⟩ | ⟨_, _, polls⟩
    · rw [polls]
      exact .refl n
    · rw [polls]
      refine .modify n s fun ses no ctx known => ?_
      rw [Transactions.context?_modify, known]
      split
      · exact ⟨_, rfl, rfl⟩
      · exact ⟨ctx, rfl, rfl⟩
  | deleteContext s channel tx => exact .modify n s fun _ _ ctx known => ⟨ctx, known, rfl⟩
  | execute s label channel m signedProposal proposal =>
    exact retains_started (started_execute n s label channel m signedProposal proposal)
  | run s label i => exact retains_started (started_run n s label i)
  | pass span => exact retains_path (path_pass n span)
  | _ => exact .of_touches (touches_act n rfl)

theorem retains_move (move : Move P n n') : Retains n n' := by
  rcases act_or_path move with ⟨a, _, _, rfl⟩ | path
  · exact retains_act n a
  · exact retains_path path

/-- Whatever happens, contexts stay, and executions wait in contexts of their own. -/
theorem retains_moves (moves : Moves P n n') : Retains n n' := by
  induction moves with
  | refl => exact .refl _
  | tail _ move ih => exact ih.trans (retains_move move)

/-! ## What is due is sent -/

/-- The minutes of a session that stays connected while things happen, where the acts in `P` can come
from outside. -/
inductive Term (P : Act → Prop) (s : SessionId) : Node → List Minute → Node → Prop
  | start {n : Node} (isOpen : (n.desk s).isOpen = true) : Term P s n [] n
  | move {n n' n'' : Node} {es es' : List Minute} (term : Term P s n es n') (move : Move P n' n'')
      (isOpen : (n''.desk s).isOpen = true) (trail : Desk.Trail (n'.desk s) es' (n''.desk s))
      (fits : ∀ e ∈ es', e.Fits P s n' n'') : Term P s n (es ++ es') n''

namespace Term

variable {es : List Minute}

theorem isOpen (h : Term P s n es n') : (n'.desk s).isOpen = true := by
  cases h with
  | start isOpen => exact isOpen
  | move _ _ isOpen => exact isOpen

theorem trail (h : Term P s n es n') : Desk.Trail (n.desk s) es (n'.desk s) := by
  induction h with
  | start => exact .nil _
  | move _ _ _ trail _ ih => exact ih.append trail

theorem sound (h : Term P s n es n') : .mended ∉ es := by
  induction h with
  | start => exact List.not_mem_nil
  | move term _ _ _ fits ih =>
    intro mem
    rcases List.mem_append.1 mem with mem | mem
    · exact ih mem
    · exact not_mended_of_fits fits term.isOpen mem

end Term

/-- While its session stays connected, the contract reads some of what was due to it before or has
become due since, each message once, and the rest is still due. When the node is at rest, all of that
has been sent. -/
structure Carries (P : Act → Prop) (n : Node) (s : SessionId) (es : List Minute) (n' : Node) :
    Prop where
  term : Term P s n es n'
  sound : .mended ∉ es
  sent : ↑(es.flatMap Minute.reads) + (n'.desk s).due =
    (n.desk s).due + ↑((es.flatMap Minute.answers).map Prod.snd) + ↑(es.flatMap Minute.others)
  rest : n'.AtRest → ∀ ses, n'.session? s = some ses → ses.outbound = .running →
    (n'.desk s).due = ↑(n'.desk s).outbox

theorem due_of_rest (rest : n.AtRest) {ses : Session} (found : n.session? s = some ses)
    (running : ses.outbound = .running) : (n.desk s).due = ↑(n.desk s).outbox := by
  have commands := ((atRest_iff.1 rest).2 s ses found).commands running
  rw [desk_found found]
  simp [Desk.due, Session.desk, commands]

theorem carries_of_moves (built : ∀ a, P a → a.isManned = true) (attended : n.Attended)
    (isOpen : (n.desk s).isOpen = true)
    (moves : Relation.ReflTransGen
      (fun n n' => Move P n n' ∧ (n'.desk s).isOpen = true) n n') :
    ∃ es, Carries P n s es n' := by
  obtain ⟨es, term, -⟩ : ∃ es, Term P s n es n' ∧ n'.Attended := by
    induction moves with
    | refl => exact ⟨[], .start isOpen, attended⟩
    | tail _ move ih =>
      obtain ⟨es, term, attended'⟩ := ih
      obtain ⟨es', trail, fits⟩ :=
        trail_of_move built attended'.sound attended'.staffed move.1 s
      exact ⟨es ++ es', .move term move.1 move.2 trail fits,
        attended_move built attended' move.1⟩
  exact ⟨es, term, term.sound, term.trail.sent term.sound term.isOpen,
    fun rest _ found running => due_of_rest rest found running⟩

/-! ## What is asked -/

namespace Placed

variable {m : Message}

/-- What the called contract is asked: to run the arguments of the call in the caller's transaction,
on the channel that the called name states or else that of the caller. It is shown the signed
proposal if the caller has both proposals. -/
structure Asks (call : n.Placed s m) (r : Message) : Prop where
  kind : r.kind = .transaction
  channel : r.channel =
    if (ContractInstance.ofName call.spec.contract.name).channel = "" then call.ctx.channel
    else (ContractInstance.ofName call.spec.contract.name).channel
  tx : r.tx = call.ctx.tx
  input : CallInput.codec.decode r.payload = .ok call.spec.input
  attached : call.ctx.signedProposal.isSome = true → call.ctx.proposal.isSome = true →
    r.proposal = call.ctx.signedProposal
  plain : ¬ (call.ctx.signedProposal.isSome = true ∧ call.ctx.proposal.isSome = true) →
    r.proposal = none

theorem asks_message (call : n.Placed s m) : call.Asks call.message where
  kind := rfl
  channel := rfl
  tx := rfl
  input := CallSpec.input_decode_encode call.decoded
  attached _ proposal := if_pos proposal
  plain lacking := by
    unfold message
    simp only
    split
    · rename_i proposal
      cases signed : call.ctx.signedProposal with
      | none => rfl
      | some sp => exact absurd ⟨signed ▸ rfl, proposal⟩ lacking
    · rfl

/-- What the called contract may do: what the caller may, on the caller's channel, and on another
one what the node lets the transaction do there. -/
structure Entitles (call : n.Placed s m) (c : Context) : Prop where
  channel : c.channel = call.target.channel
  tx : c.tx = call.ctx.tx
  own : c.channel = call.ctx.channel → c.simulator = call.ctx.simulator ∧
    c.simulator.isSome = true ∧ c.historian = call.ctx.historian
  other : c.channel ≠ call.ctx.channel → c.simulator = some ⟨c.channel, c.tx⟩ ∧
    c.historian = n.historian? c.channel

theorem entitles_context (call : n.Placed s m) : call.Entitles call.context where
  channel := rfl
  tx := rfl
  own same := by
    have righted := call.righted
    have same' : (call.spec.target call.ctx.channel).channel = call.ctx.channel := same
    rw [callRights, if_pos same'] at righted
    cases right : call.ctx.simulator with
    | none =>
      rw [right] at righted
      cases righted
    | some sim =>
      rw [right] at righted
      have rights := Except.ok.inj righted
      exact ⟨congrArg some (congrArg Prod.fst rights).symm, rfl, (congrArg Prod.snd rights).symm⟩
  other other := by
    rcases callRights_cases call.righted with ⟨same, _⟩ | ⟨simulator, historian⟩
    · exact absurd same other
    · exact ⟨congrArg some simulator, historian⟩

/-! ## What is returned -/

/-- The execution `w` of a call returns with `a`: its context is not registered any more, and the
caller's contract is to be sent that as the result of its request. -/
structure Repays (call : n.Placed s m) (w : Call) (a : Message) (n₂ n₃ : Node) : Prop where
  done : w ∉ n₃.calls
  gone : ∀ ses, n₃.session? w.session = some ses →
    ses.transactions.find? call.target.channel call.ctx.tx = none
  sends : n₂.Sends s { kind := .response, channel := m.channel, tx := m.tx
                       payload := Message.codec.encode a } n₃
  reads : (Message.codec.encode a).length < wireLimit →
    Message.codec.decode (Message.codec.encode a) = .ok a

end Placed

variable {m : Message}

theorem Returns.retains {w : Call} {a : Message} (returns : Returns w a n n') : Retains n n' := by
  obtain ⟨ctx, _, _, rfl⟩ := returns.told
  rw [retire_eq]
  exact (Retains.released n w ctx (f := fun c => { c with slot := c.slot.drop }) fun _ => rfl).trans
    (.of_touches (touches_deliver ..))

theorem repays_of_returns {n₂ n₃ : Node} {w : Call} {a : Message} {ctx : Context}
    (call : n.Placed s m) (sound : n₂.Sound) (origin : w.origin = call.origin)
    (known : n₂.context? w.session w.context = some ctx) (badge : ctx.badge = call.context.badge)
    (returns : Returns w a n₂ n₃) : call.Repays w a n₂ n₃ := by
  obtain ⟨ctx', known', _, delivered⟩ := returns.told
  cases Option.some.inj (known.symm.trans known')
  obtain ⟨channel, tx⟩ : ctx.channel = call.target.channel ∧ ctx.tx = call.ctx.tx := by
    simp only [Context.badge, Prod.mk.injEq] at badge
    exact ⟨badge.1, badge.2.1⟩
  rw [retire_eq, origin] at delivered
  have touches := touches_deliver
    (n₂.released w ctx fun c => { c with slot := c.slot.drop }) call.origin (.ok a)
  rw [← delivered] at touches
  refine ⟨fun waits => ?_, fun ses found => ?_, ?_, Message.decode_encode⟩
  · have left : w ∈ (n₂.forget w).calls := touches.calls ▸ waits
    rw [calls_forget sound returns.waits] at left
    simpa using List.of_mem_filter left
  · obtain ⟨ses₂, found₂, _⟩ := context?_eq_some_iff.1 known
    have released := session?_modify (f := fun ses : Session =>
      { ses with
        transactions := (ses.transactions.modify w.context
          fun c => { c with slot := c.slot.drop }).delete ctx.channel ctx.tx }) found₂
    obtain ⟨ses₃, found₃, follows⟩ := touches.sessions w.session _ released
    cases Option.some.inj (found.symm.trans found₃)
    show ses.transactions.index.get? (contextKey call.target.channel call.ctx.tx) = none
    rw [follows.index, ← channel, ← tx]
    exact (KeyMap.get?_erase ..).trans (if_pos rfl)
  · have answered := sends_answer (n₂.released w ctx fun c => { c with slot := c.slot.drop }) s
      ⟨.invoke, m⟩ (.ok (Message.codec.encode a))
    rw [delivered]
    refine answered.of_due fun u => ?_
    rw [desk_released]
    rfl

/-- What becomes of a call whose execution is `w`, where `n'` is the node in which its thread has run
it: the called contract is to be sent one message, and has the rights that go with the call for as
long as it runs. As soon as `w` returns, which it does once at most, the caller is sent the result.
All of that is sent as long as the contracts are connected. -/
structure Relayed (P : Act → Prop) (call : n.Placed s m) (w : Call) (n' : Node) : Prop where
  begins : n.Begins w call.context call.message n'
  asks : call.Asks call.message
  entitles : call.Entitles call.context
  keeps : ∀ n₂, Moves P n' n₂ → ∃ ctx, n₂.context? w.session w.context = some ctx ∧
    ctx.badge = call.context.badge
  repays : ∀ n₂ n₃ a, Moves P n' n₂ → Returns w a n₂ n₃ → call.Repays w a n₂ n₃
  once : ∀ n₂ n₃ a, Moves P n' n₂ → Returns w a n₂ n₃ → ∀ n₄, Moves P n₃ n₄ → w ∉ n₄.calls
  carries : ∀ u n₁ n₂, Moves P n' n₁ → (n₁.desk u).isOpen = true → Relation.ReflTransGen
    (fun n n' => Move P n n' ∧ (n'.desk u).isOpen = true) n₁ n₂ → ∃ es, Carries P n₁ u es n₂

/-- A session has been asked for a call while it was ready, whose thread takes it up. If nothing
stands against it, and a session serves its target that has not ended and has no context for the
transaction, it is relayed to the contract of that session and back. -/
theorem relayed_of_moves (built : ∀ a, P a → a.isManned = true)
    {channels historyless system : List String} {drill : Drill}
    (run : Moves P (withChannels channels historyless system drill) n) (call : n.Placed s m)
    (resolved : n.directory.resolve call.target = .ok t) {ses : Session}
    (found : n.session? t = some ses) (live : ses.phase ≠ .ended)
    (fresh : ses.transactions.find? call.target.channel call.ctx.tx = none) :
    Asked P s ⟨.invoke, m⟩ (withChannels channels historyless system drill) n ∧
      ∃ w : Call, w.session = t ∧ w.origin = call.origin ∧ Relayed P call w (n.dial s m) := by
  have every : n.Every Context.Attested :=
    every_moves hereditary_attested (every_withChannels _ _ _ _) (fun _ _ => trivial) run
  have attested := (every s call.ses call.found).found call.registered call.known
  have on : ses.outbound ≠ .stopped := fun off => not_astray_of_moves run found ⟨off, live⟩
  obtain ⟨w, session, origin, begins⟩ :=
    begins_of_resolved call attested resolved found on fresh
  have dialled : Move P n (n.dial s m) := .dial call.found call.dialled
  have attended : (n.dial s m).Attended :=
    attended_moves built (attended_withChannels channels historyless system drill)
      (run.tail dialled)
  have keeps (n₂ : Node) (later : Moves P (n.dial s m) n₂) : ∃ ctx,
      n₂.context? w.session w.context = some ctx ∧ ctx.badge = call.context.badge := by
    obtain ⟨ses', ctx, found', _, known, badge⟩ := begins.context
    obtain ⟨ctx', known', same⟩ := (retains_moves later).contexts w.session w.context ctx
      (context?_eq_some_iff.2 ⟨ses', found', known⟩)
    exact ⟨ctx', known', same.trans badge⟩
  have repays (n₂ n₃ : Node) (a : Message) (later : Moves P (n.dial s m) n₂)
      (returns : Returns w a n₂ n₃) : call.Repays w a n₂ n₃ := by
    obtain ⟨ctx, known, badge⟩ := keeps n₂ later
    exact repays_of_returns call (sound_moves attended.sound later) origin known badge returns
  refine ⟨asked_of_dialled run call.found call.dialled, w, session, origin, begins,
    call.asks_message, call.entitles_context, keeps, repays,
    fun n₂ n₃ a later returns n₄ last waits => ?_, fun u n₁ n₂ later isOpen stays =>
      carries_of_moves built (attended_moves built attended later) isOpen stays⟩
  obtain ⟨ctx, known, _⟩ := keeps n₂ later
  obtain ⟨ctx', known', _⟩ := returns.retains.contexts _ _ ctx known
  rcases (retains_moves last).calls w waits with before | fresh
  · exact (repays n₂ n₃ a later returns).done before
  · rw [known'] at fresh
    cases fresh

/-- A call on a channel that has no ledger is answered with that, and the contract that it is for is
not asked to run it. Nor is a contract that nothing can be sent to, although its session goes on. -/
theorem unrelayed_of_missing :
    let n := (withChannels ["ch"] [] [] {}).steps (meetingRun .contractSends { name := "cc" })
    let m := meetingCall { name := "cc/other" }
    let n' := n.step (.contractSends 1 m)
    let n₁ := n.step (.breakSend 0 true)
    let n₁' := n₁.step (.contractSends 1 (meetingCall { name := "cc" }))
    ((n.session? 1).any fun ses => ses.phase == .ready && ses.transactions.markers.isEmpty &&
      (ses.transactions.get? "ch" "t1").any (·.simulator.isSome) && ses.access.denied.isEmpty) ∧
    n.directory.resolve (({ contract := { name := "cc/other" } } : CallSpec).target "ch") = .ok 0 ∧
    ((n.session? 0).any fun ses => ses.phase == .ready && ses.transactions.contexts.isEmpty) ∧
    (n'.session? 0).map (·.link.outbox.queue) = (n.session? 0).map (·.link.outbox.queue) ∧
    ((n'.session? 1).bind (·.link.outbox.queue.getLast?)) =
      some (reply m (.error (.ledgerNotFound "other"))) ∧
    ((n₁.session? 0).any fun ses => ses.phase == .ready) ∧
    (n₁'.session? 0).map (·.link.outbox.queue) = (n₁.session? 0).map (·.link.outbox.queue) := by
  decide +kernel

theorem relayed_of_moves_meetingRun :
    let m := meetingCall { name := "cc" }
    let n := ((withChannels ["ch"] [] [] {}).steps
      (meetingRun .contractSends { name := "cc" })).act (.handle 1 m)
    ∃ (call : n.Placed 1 m) (w : Call) (a : Message) (n₂ n₃ : Node),
      Relayed (·.isManned = true) call w (n.dial 1 m) ∧
        Moves (·.isManned = true) (n.dial 1 m) n₂ ∧ Returns w a n₂ n₃ := by
  intro m n
  have run : Moves (·.isManned = true) (withChannels ["ch"] [] [] {}) n :=
    (moves_steps (by decide +kernel)).trans (moves_act rfl)
  have there : (n.placed? 1 m).any (fun call =>
      n.directory.resolve call.target = .ok 0 ∧ (n.session? 0).any fun ses =>
        ses.phase ≠ .ended ∧ ses.transactions.find? call.target.channel call.ctx.tx = none) =
      true := by decide +kernel
  obtain ⟨call, _, facts⟩ := (Option.any_eq_true ..).1 there
  obtain ⟨resolved, facts⟩ := of_decide_eq_true facts
  obtain ⟨ses, found, facts⟩ := (Option.any_eq_true ..).1 facts
  obtain ⟨live, fresh⟩ := of_decide_eq_true facts
  obtain ⟨_, w, _, _, relayed⟩ := relayed_of_moves (fun _ => id) run call resolved found live fresh
  -- The called contract answers, and the execution returns.
  let done : Message := { kind := .completed, channel := "ch", tx := "t1" }
  have ends : Move (·.isManned = true) (n.dial 1 m) ((n.dial 1 m).act (.handle 0 done)) :=
    .act _ rfl fun _ => nofun
  have last : (n.dial 1 m).calls.getLast? = some w := by
    rw [relayed.begins.calls, List.getLast?_concat]
  have finishes : (n.dial 1 m).calls.getLast?.any (fun w =>
      let n₂ := (n.dial 1 m).act (.handle 0 done)
      w ∈ n₂.calls ∧ (n₂.finish? w).isSome) = true := by decide +kernel
  rw [last] at finishes
  obtain ⟨waits, finished⟩ := of_decide_eq_true finishes
  obtain ⟨n₃, finished⟩ := Option.isSome_iff_exists.1 finished
  obtain ⟨a, returns⟩ := returns_of_finish? waits finished
  exact ⟨call, w, a, _, n₃, relayed, .single ends, returns⟩

end Node

end ContractNode
