import ContractNode.Proofs.Roll
import ContractNode.Proofs.Tidy

/-!
# Where sessions are in their lives

A session goes through its phases, its two loops are started and stop, and that is all there is to
its life. What each of these steps keeps is kept whatever happens.

* `Session.Abides` : a session stays where it is in its life;
* `Session.Lasting` : a property that the steps of a session's life keep;
* `Node.Upholds`, `upholds_move` : every move keeps a lasting property of sessions;
* `Session.Winds`, `winds_moves` : once a session has ended, its outbound loop stops;
* `proper_moves` : the directory lists no session that has ended.
-/

namespace ContractNode

/-! ## Properties that last -/

/-- A session stays in its phase, and its loops stay as they are. An order to stop that is queued
for the outbound loop stays there. -/
structure Session.Abides (ses ses' : Session) : Prop where
  phase : ses'.phase = ses.phase
  inbound : ses'.inbound = ses.inbound
  outbound : ses'.outbound = ses.outbound
  shutdown : .shutdown ∈ ses.commands → .shutdown ∈ ses'.commands

theorem Session.Steady.abides {ses ses' : Session} (h : ses.Steady ses') : ses.Abides ses' := by
  have vitals := h.vitals
  simp only [Session.vitals, Prod.mk.injEq] at vitals
  obtain ⟨phase, _, _, _, inbound, outbound⟩ := vitals
  exact ⟨phase, inbound, outbound, h.shutdown⟩

/-- A property of sessions that each step of a session's life keeps. -/
structure Session.Lasting (Q : Session → Prop) : Prop where
  abides {ses ses' : Session} (h : ses.Abides ses') (holds : Q ses) : Q ses'
  advance {ses : Session} {phase : Phase} (before : ses.phase ≠ .ended) (after : phase ≠ .ended)
    (holds : Q ses) : Q { ses with phase }
  start {ses : Session} (idle : ses.outbound = .idle) (holds : Q ses) :
    Q { ses with inbound := .running, outbound := .running }
  stopInbound {ses ses' : Session} (running : ses.inbound = .running)
    (outbound : ses'.outbound = ses.outbound) (ended : ses'.phase = .ended)
    (closing : ses.outbound ≠ .idle → ses'.Closing) (holds : Q ses) : Q ses'
  stopOutbound {ses ses' : Session} (running : ses.outbound = .running)
    (stopped : ses'.outbound = .stopped) (ended : ses'.phase = .ended) (holds : Q ses) : Q ses'

namespace Node

/-- Every session keeps a property, and new sessions have it if sessions begin with it. -/
structure Upholds (Q : Session → Prop) (n n' : Node) : Prop where
  kept : ∀ s ses, n.session? s = some ses → ∃ ses', n'.session? s = some ses' ∧ (Q ses → Q ses')
  fresh : (∀ config access launcher, Q { config, access, launcher }) →
    ∀ s ses', n.session? s = none → n'.session? s = some ses' → Q ses'

variable {Q : Session → Prop} {P : Act → Prop} {n n' n'' : Node} {s : SessionId} {ses : Session}

namespace Upholds

theorem refl (n : Node) : Upholds Q n n := by
  refine ⟨fun s ses found => ⟨ses, found, id⟩, fun _ s ses' none found => ?_⟩
  rw [none] at found
  cases found

theorem trans (h : Upholds Q n n') (h' : Upholds Q n' n'') : Upholds Q n n'' := by
  refine ⟨fun s ses found => ?_, fun first s ses'' none found'' => ?_⟩
  · obtain ⟨ses', found', keeps⟩ := h.kept s ses found
    obtain ⟨ses'', found'', keeps'⟩ := h'.kept s ses' found'
    exact ⟨ses'', found'', keeps' ∘ keeps⟩
  · cases found' : n'.session? s with
    | none => exact h'.fresh first s ses'' found' found''
    | some ses' =>
      obtain ⟨_, same, keeps⟩ := h'.kept s ses' found'
      cases Option.some.inj (found''.symm.trans same)
      exact keeps (h.fresh first s ses' none found')

theorem outside (same : n'.sessions = n.sessions) : Upholds Q n n' := by
  have still (s : SessionId) : n'.session? s = n.session? s := by
    unfold session?
    rw [same]
  refine ⟨fun s ses found => ⟨ses, (still s).trans found, id⟩, fun _ s ses' none found => ?_⟩
  rw [still s, none] at found
  cases found

theorem replaced (found : n.session? s = some ses) {ses' : Session}
    (found' : n'.session? s = some ses') (others : ∀ t, s ≠ t → n'.session? t = n.session? t)
    (keeps : Q ses → Q ses') : Upholds Q n n' := by
  refine ⟨fun t ses₁ found₁ => ?_, fun _ t ses₁ none found₁ => ?_⟩
  · by_cases same : s = t
    · subst same
      cases Option.some.inj (found.symm.trans found₁)
      exact ⟨ses', found', keeps⟩
    · exact ⟨ses₁, (others t same).trans found₁, id⟩
  · by_cases same : s = t
    · subst same
      rw [found] at none
      cases none
    · rw [others t same, none] at found₁
      cases found₁

theorem modify (n : Node) (s : SessionId) {f : Session → Session}
    (keeps : ∀ ses, n.session? s = some ses → Q ses → Q (f ses)) : Upholds Q n (n.modify s f) := by
  cases found : n.session? s with
  | none =>
    rw [modify_self fun ses' found' => by rw [found] at found'; cases found']
    exact .refl n
  | some ses =>
    refine .replaced found (session?_modify found) (fun t other => ?_) (keeps ses found)
    rw [session?_modify_if, if_neg other]

end Upholds

variable (lasting : Session.Lasting Q)

include lasting

theorem upholds_steady (steady : Steady n n') : Upholds Q n n' := by
  refine ⟨fun s ses found => ?_, fun _ s ses' none found' => ?_⟩
  · obtain ⟨ses', found', same⟩ := steady.forth found
    exact ⟨ses', found', lasting.abides same.abides⟩
  · obtain ⟨ses, found, _⟩ := steady.back found'
    rw [none] at found
    cases found

theorem upholds_apart (n : Node) (s : SessionId) {f : Session → Session}
    (h : ∀ ses : Session, ses.Abides (f ses)) : Upholds Q n (n.modify s f) :=
  .modify n s fun ses _ => lasting.abides (h ses)

theorem upholds_deregister (n : Node) (s : SessionId) : Upholds Q n (n.deregister s) := by
  obtain ⟨directory, left⟩ := n.deregister_eq s
  have off : Upholds Q n (n.modify s fun ses => { ses with isRegistered := false }) :=
    upholds_apart lasting n s fun _ => ⟨rfl, rfl, rfl, id⟩
  rw [left]
  exact off.trans (.outside rfl)

theorem upholds_setPhase {phase : Phase} (found : n.session? s = some ses)
    (before : ses.phase ≠ .ended) (after : phase ≠ .ended) : Upholds Q n (n.setPhase s phase) := by
  refine .modify n s fun ses' found' => ?_
  cases Option.some.inj (found.symm.trans found')
  exact lasting.advance before after

theorem upholds_register (n : Node) (s : SessionId) (m : Message) :
    Upholds Q n (n.register s m).2 := by
  have registering := registering_register n s m
  have listed (id : ContractId) (d : Directory) : Upholds Q n (n.listed s id d) := by
    have changed : Upholds Q n { n with directory := d } := .outside rfl
    exact changed.trans (upholds_apart lasting _ s fun _ => ⟨rfl, rfl, rfl, fun h => h⟩)
  generalize n.register s m = p at registering ⊢
  obtain ⟨outcome, n'⟩ := p
  cases registering with
  | refused e => exact .refl _
  | unsent e free given =>
    rw [given]
    exact (listed _ _).trans (upholds_deregister lasting _ s)
  | told link free sent =>
    rw [sent]
    exact (listed _ _).trans (upholds_apart lasting _ s fun _ => ⟨rfl, rfl, rfl, id⟩)

omit lasting in
/-- A session that ends is told so before, and stops. -/
theorem ending (found : n.session? s = some ses) :
    (∃ ses₁, ses.Steady ses₁ ∧ (n.endSession s).session? s =
      some { ses₁ with isRegistered := false, phase := .ended }.stop) ∧
      ∀ t, s ≠ t → (n.endSession s).session? t = n.session? t := by
  have others (n : Node) (t : SessionId) (other : s ≠ t) :
      (n.closed s).session? t = n.session? t := by
    unfold closed
    rw [session?_modify_if, if_neg other, session?_deregister_other _ other]
  rw [endSession_eq found]
  split
  · exact ⟨⟨ses, .refl ses, session?_closed found⟩, others n⟩
  · obtain ⟨ses₁, found₁, steady⟩ := (n.steady_farewelled s).forth found
    refine ⟨⟨ses₁, steady, session?_closed found₁⟩, fun t other => ?_⟩
    rw [others _ t other, farewelled, session?_modify_if, if_neg other]

theorem upholds_stopInbound (found : n.session? s = some ses) (running : ses.inbound = .running) :
    Upholds Q n (n.stopInbound s) := by
  have found₀ := session?_modify (f := fun ses => { ses with inbound := .stopped }) found
  obtain ⟨⟨ses₁, steady, there⟩, others⟩ := ending found₀
  have outbound : ses₁.outbound = ses.outbound := steady.outbound
  refine .replaced found there (fun t other => (others t other).trans ?_) ?_
  · rw [session?_modify_if, if_neg other]
  · exact lasting.stopInbound running outbound rfl fun on => closing_stop (outbound ▸ on)

theorem upholds_stopOutbound (found : n.session? s = some ses) (running : ses.outbound = .running)
    (rest : List Instruction) :
    Upholds Q n ((n.modify s fun ses => { ses with commands := rest }).stopOutbound s) := by
  have found₀ := session?_modify (f := fun ses => { ses with commands := rest }) found
  obtain ⟨⟨ses₁, _, there⟩, others⟩ := ending found₀
  refine .replaced found (session?_modify there) (fun t other => ?_) ?_
  · rw [stopOutbound, session?_modify_if, if_neg other, others t other, session?_modify_if,
      if_neg other]
  · exact lasting.stopOutbound running rfl rfl

theorem upholds_shift (shift : Shift n n') : Upholds Q n n' := by
  have registering {n₁ : Node} {s : SessionId} {ses : Session} {m : Message}
      {r : Except SessionError Unit} (found : n.session? s = some ses)
      (created : ses.phase = .created) (registered : n.register s m = (r, n₁)) :
      Upholds Q n n₁ ∧ ∃ ses', n₁.session? s = some ses' ∧ ses'.phase ≠ .ended := by
    have kept : Upholds Q n (n.register s m).2 := upholds_register lasting n s m
    obtain ⟨ses', found', phase⟩ := phase_register (m := m) found
    rw [registered] at kept found'
    exact ⟨kept, ses', found', by rw [phase, created]; exact Phase.noConfusion⟩
  cases shift with
  | @register n₁ s ses m found created registered =>
    obtain ⟨kept, ses', found', live⟩ := registering found created registered
    have announced : Steady n₁ (n₁.modify s Session.announce) :=
      .modify n₁ s fun ses _ => ses.talks_announce.steady
    refine (kept.trans (upholds_steady lasting announced)).trans
      (upholds_setPhase lasting (session?_modify found') ?_ Phase.noConfusion)
    rw [ses'.talks_announce.phase]
    exact live
  | refuse found created refused =>
    obtain ⟨kept, ses', found', live⟩ := registering found created refused
    exact kept.trans (upholds_setPhase lasting found' live Phase.noConfusion)
  | deregister s => exact upholds_deregister lasting n s
  | @getReady s ses m found established =>
    have told : Steady n (n.modify s (·.notify m)) := .modify n s fun ses _ => ses.steady_notify m
    refine (upholds_steady lasting told).trans
      (upholds_setPhase lasting (session?_modify found) ?_ Phase.noConfusion)
    rw [(ses.steady_notify m).phase, established]
    exact Phase.noConfusion
  | stopInbound found running => exact upholds_stopInbound lasting found running
  | stopOutbound found running rest => exact upholds_stopOutbound lasting found running rest

theorem upholds_path (path : Path n n') : Upholds Q n n' := by
  induction path with
  | refl => exact .refl n
  | tail _ deed ih =>
    rcases steady_or_shift deed with steady | shift
    · exact ih.trans (upholds_steady lasting steady)
    · exact ih.trans (upholds_shift lasting shift)

omit lasting in
theorem upholds_openSession (n : Node) (config : SessionConfig) (access : AccessPolicy)
    (launcher : Launcher) : Upholds Q n (n.openSession config access launcher).2 := by
  refine ⟨fun s ses found => ⟨ses, session?_of_openSession config access launcher found, id⟩,
    fun first s ses' none found => ?_⟩
  rcases session?_openSession found with there | ⟨_, rfl⟩
  · rw [none] at there
    cases there
  · exact first ..

theorem upholds_act (n : Node) {a : Act} (once : ∀ span, a ≠ .pass span) :
    Upholds Q n (n.act a) := by
  have steadily {n' : Node} : Steady n n' → Upholds Q n n' := upholds_steady lasting
  cases talker : a.talker? with
  | some s => exact steadily (steady_talks (n.talks_act talker))
  | none =>
    cases a with
    | pass span => exact absurd rfl (once span)
    | handle s m => exact upholds_path lasting (path_handle n s m)
    | deregister s => exact upholds_deregister lasting n s
    | openSession config access launcher => exact upholds_openSession n config access launcher
    | start s =>
      show Upholds Q n (n.start s).2
      rcases n.start_cases s with same | ⟨ses, found, idle, started⟩
      · rw [same]
        exact .refl n
      · rw [started]
        refine .modify n s fun ses' found' => ?_
        cases Option.some.inj (found.symm.trans found')
        exact lasting.start idle
    | notify s m => exact steadily (.modify n s fun ses _ => ses.steady_notify m)
    | ready s channel tx signedProposal proposal => exact steadily (steady_ready ..)
    | poll s c => exact steadily (steady_poll n s c)
    | deleteContext s channel tx => exact steadily (.apart n s fun _ => ⟨rfl, rfl⟩)
    | execute s label channel m signedProposal proposal =>
      exact steadily (steady_started (started_execute ..))
    | run s label i => exact steadily (steady_started (started_run ..))
    | registerKey key s =>
      obtain ⟨directory, left⟩ := n.registerKey_eq key s
      show Upholds Q n (n.registerKey key s).2
      rw [left]
      exact .outside rfl
    | seed channel tx space collection entries =>
      obtain ⟨ledger, given⟩ := n.seed_eq channel tx space collection entries
      show Upholds Q n (n.seed channel tx space collection entries).2
      rw [given]
      exact .outside rfl
    | deregisterKey | createChannel | gate | ungate => exact .outside rfl
    | _ => cases talker

/-- Whatever happens, sessions keep a property that lasts. -/
theorem upholds_move (move : Move P n n') : Upholds Q n n' := by
  rcases act_or_path move with ⟨a, _, once, rfl⟩ | path
  · exact upholds_act lasting n once
  · exact upholds_path lasting path

theorem upholds_moves (moves : Moves P n n') : Upholds Q n n' := by
  induction moves with
  | refl => exact .refl n
  | tail _ move ih => exact ih.trans (upholds_move lasting move)

/-- What sessions begin with, and lasts, holds of all sessions at all times. -/
theorem holds_of_moves (first : ∀ config access launcher, Q { config, access, launcher })
    {channels historyless system : List String} {drill : Drill}
    (moves : Moves P (withChannels channels historyless system drill) n)
    (found : n.session? s = some ses) : Q ses :=
  (upholds_moves lasting moves).fresh first s ses rfl found

end Node

/-! ## Loops and phases -/

/-- Both loops are started at once, and once a session has ended, its outbound loop stops. -/
structure Session.Winds (ses : Session) : Prop where
  loops : ses.inbound ≠ .idle → ses.outbound ≠ .idle
  closing : ses.phase = .ended → ses.Closing

theorem Session.lasting_winds : Session.Lasting Session.Winds where
  abides same winds := by
    refine ⟨by rw [same.inbound, same.outbound]; exact winds.loops, fun ended => ?_⟩
    have closing := winds.closing (same.phase ▸ ended)
    unfold Session.Closing at closing ⊢
    rw [same.outbound]
    exact closing.imp_right fun on => ⟨on.1, same.shutdown on.2⟩
  advance before after winds := ⟨winds.loops, fun ended => absurd ended after⟩
  start idle winds := ⟨fun _ => Loop.noConfusion, fun ended =>
    absurd (winds.closing ended) (Node.not_closing_of_idle idle)⟩
  stopInbound running outbound ended closing winds := by
    have on := winds.loops (running ▸ Loop.noConfusion)
    exact ⟨fun _ => outbound ▸ on, fun _ => closing on⟩
  stopOutbound running stopped ended _ :=
    ⟨fun _ => stopped ▸ Loop.noConfusion, fun _ => .inl stopped⟩

namespace Node

variable {P : Act → Prop} {n n' : Node} {s : SessionId} {ses : Session}

theorem winds_moves {channels historyless system : List String} {drill : Drill}
    (moves : Moves P (withChannels channels historyless system drill) n)
    (found : n.session? s = some ses) : ses.Winds :=
  holds_of_moves Session.lasting_winds
    (fun _ _ _ => ⟨fun on => absurd rfl on, fun ended => by cases ended⟩) moves found

theorem closing_of_moves {channels historyless system : List String} {drill : Drill}
    (moves : Moves P (withChannels channels historyless system drill) n) : n.Closing :=
  fun _ _ found => (winds_moves moves found).closing

/-! ## The directory -/

theorem proper_path (proper : n.Proper) (path : Path n n') : n'.Proper := by
  induction path with
  | refl => exact proper
  | tail _ deed ih => exact proper_deed ih deed

theorem proper_act (proper : n.Proper) {a : Act} (byHand : ∀ key s, a ≠ .registerKey key s)
    (once : ∀ span, a ≠ .pass span) : (n.act a).Proper := by
  cases quiet : a.isQuiet with
  | true => exact (proper_calm_act proper quiet byHand).1
  | false =>
    cases a with
    | handle s m => exact proper_path proper (path_handle n s m)
    | ready s channel tx signedProposal proposal => exact proper.steady (steady_ready ..)
    | poll s c => exact proper.steady (steady_poll ..)
    | deleteContext s channel tx => exact proper.steady (.apart n s fun _ => ⟨rfl, rfl⟩)
    | execute s label channel m signedProposal proposal =>
      exact proper.steady (steady_started (started_execute ..))
    | run s label i => exact proper.steady (steady_started (started_run ..))
    | pass span => exact absurd rfl (once span)
    | _ => cases quiet

/-- The directory lists registered sessions that have not ended, as long as nobody enters a session
there by hand. -/
theorem proper_moves (byHand : ∀ key s, ¬ P (.registerKey key s)) (proper : n.Proper)
    (moves : Moves P n n') : n'.Proper := by
  induction moves with
  | refl => exact proper
  | tail _ move ih =>
    rcases act_or_path move with ⟨a, given, once, rfl⟩ | path
    · exact proper_act ih (fun key s same => byHand key s (same ▸ given)) once
    · exact proper_path ih path

end Node

end ContractNode
