import ContractNode.Proofs.Readiness
import ContractNode.Proofs.Silence
import ContractNode.Proofs.Told

/-!
# Sessions that send nothing more

Threads that are in the middle of registering a session, or of giving its key up, add nothing to what
is on its way to a contract once the session has ended.

* `fills_stage`, `suffix_stage` : what is on its way to a contract stays so until it is read;
* `Scene.Early`, `early_stage` : a session that is being registered is `created`;
* `Session.Driven`, `Scene.Over` : a session that has ended was started, and sends nothing more
  (`over_stages`).
-/

namespace ContractNode

/-! ## What is on its way -/

namespace Node

variable {n n' : Node} {s t : SessionId}

theorem fills_shut (n : Node) (t : SessionId) : Fills s n (n.shut t) := by
  unfold shut
  refine .trans ?_ (.modify _ _ fun _ _ => .close _)
  split
  · exact .refl n
  · exact .modify n t fun ses _ => ses.fills_notify _

theorem fills_haltInbound (n : Node) (t : SessionId) : Fills s n (n.haltInbound t) := by
  have halted : Fills s n (n.modify t fun ses => { ses with inbound := .stopped }) :=
    .apart n t fun _ => rfl
  exact halted.trans (fills_shut ..)

theorem fills_leaving (n : Node) (t : SessionId) (l : Leaving) : Fills s n (l.next n t).1 := by
  cases l with
  | strike =>
    simp only [Leaving.next]
    split
    · exact .apart n t fun _ => rfl
    · exact .refl n
  | look => exact .refl n
  | vacate => exact .outside rfl

theorem fills_joining (n : Node) (t : SessionId) (id : ContractId) (e : Joining) :
    Fills s n (e.next n t id).1 := by
  cases e with
  | flag | identity | place => exact .apart n t fun _ => rfl
  | tell =>
    simp only [Joining.next]
    rcases n.send_cases t { kind := .registered } with ⟨e, sent⟩ | ⟨ses, link, found, linked, sent⟩
    · rw [sent]
      exact .refl n
    · rw [sent]
      refine .modify n t fun ses' found' => ?_
      cases Option.some.inj (found.symm.trans found')
      exact Session.fills_linked linked
  | establish =>
    have announced : Fills s n (n.modify t Session.announce) :=
      .modify n t fun ses _ => ses.fills_announce
    exact announced.trans (.apart _ t fun _ => rfl)
  | undo l => exact fills_leaving n t l

theorem fills_next (n : Node) (th : Thread) : Fills s n (th.next n).1 := by
  cases th with
  | registers t id e how =>
    rw [Scene.node_registers]
    exact fills_joining n t id e
  | follows t how =>
    cases how with
    | handed => exact .refl n
    | received =>
      simp only [Thread.next]
      split
      · exact fills_haltInbound n t
      · exact .refl n
    | triggered c =>
      simp only [Thread.next]
      split
      · exact .modify n t fun ses _ => ses.fills_sendAnyway _
      · exact .refl n
  | deregisters t l => exact fills_leaving n t l

/-- A session that gives its key up is as it was, but for taking itself to be registered. -/
theorem session?_of_deregister {ses : Session} (found : n.session? t = some ses) (s : SessionId) :
    ∃ isRegistered, (n.deregister s).session? t = some { ses with isRegistered } := by
  obtain ⟨directory, left⟩ := n.deregister_eq s
  rw [left]
  show ∃ isRegistered, (n.modify s _).session? t = some { ses with isRegistered }
  rw [session?_modify_if]
  split
  · exact ⟨false, by rw [found]; rfl⟩
  · exact ⟨ses.isRegistered, found⟩

theorem Fills.of_deregister (h : Fills s n (n'.deregister t)) : Fills s n n' := by
  refine ⟨fun ses found => ?_⟩
  obtain ⟨ses', found', fills⟩ := h.session ses found
  obtain ⟨directory, left⟩ := n'.deregister_eq t
  rw [left] at found'
  change (n'.modify t _).session? s = some ses' at found'
  rcases session?_modify_cases found' with ⟨rfl, ses₁, there, same⟩ | ⟨_, there⟩
  · refine ⟨ses₁, there, ?_⟩
    subst same
    exact fills
  · exact ⟨ses', there, fills⟩

end Node

/-- Both loops of a session are started at once, and they were when it has ended. -/
structure Session.Driven (ses : Session) : Prop where
  loops : ses.inbound ≠ .idle → ses.outbound ≠ .idle
  ended : ses.phase = .ended → ses.outbound ≠ .idle

theorem Session.lasting_driven : Session.Lasting Session.Driven where
  abides same driven :=
    ⟨by rw [same.inbound, same.outbound]; exact driven.loops,
      by rw [same.phase, same.outbound]; exact driven.ended⟩
  advance _ after driven := ⟨driven.loops, fun ended => absurd ended after⟩
  start _ _ := ⟨fun _ => Loop.noConfusion, fun _ => Loop.noConfusion⟩
  stopInbound running outbound _ _ driven := by
    have on := driven.loops (running ▸ Loop.noConfusion)
    exact ⟨fun _ => outbound ▸ on, fun _ => outbound ▸ on⟩
  stopOutbound _ stopped _ _ :=
    ⟨fun _ => stopped ▸ Loop.noConfusion, fun _ => stopped ▸ Loop.noConfusion⟩

theorem Session.lasting_ended : Session.Lasting (·.phase = .ended) where
  abides same ended := same.phase.trans ended
  advance before _ ended := absurd ended before
  start _ ended := ended
  stopInbound _ _ ended _ _ := ended
  stopOutbound _ _ ended _ := ended

namespace Scene

variable {P : Act → Prop} {x x' : Scene} {s t : SessionId} {i : Nat} {th : Thread} {ses : Session}

/-- What is not a move only adds to what is on its way to contracts. -/
theorem move_or_fills (stage : Stage P x x') :
    Node.Move P x.node x'.node ∨ ∀ s, Node.Fills s x.node x'.node := by
  cases stage with
  | move move => exact .inl move
  | told => exact .inr fun s => .refl _
  | halts halts =>
    have move : Node.Move (fun _ => False) _ _ := halts.move
    exact .inr fun s => .of_deregister (Node.fills_move (fun _ => False.elim) move)
  | @lists i t m how n' ses id d fetches =>
    have fetched (s : SessionId) : Node.Fills s x.node n' := by
      cases fetches with
      | handed => exact .refl _
      | received | triggered => exact .apart _ _ fun _ => rfl
    exact .inr fun s => (fetched s).trans (.outside rfl)
  | next => exact .inr fun s => Node.fills_next _ _

/-- Whatever happens, what is on its way to a contract stays so until the contract takes it. -/
theorem fills_stage (stays : ∀ a, P a → a.takes s = false) (stage : Stage P x x') :
    Node.Fills s x.node x'.node := by
  rcases move_or_fills stage with move | fills
  · exact Node.fills_move stays move
  · exact fills s

theorem suffix_stage (stage : Stage P x x') (found : x.node.session? s = some ses)
    (closed : ses.link.outbox.closed = true) : ∃ ses', x'.node.session? s = some ses' ∧
      ses'.link.outbox.closed = true ∧ ses'.link.outbox.queue <:+ ses.link.outbox.queue := by
  rcases move_or_fills stage with move | fills
  · exact Node.suffix_of_move move found closed
  · exact Node.suffix_of_fills (fills s) found closed

/-! ## Registrations -/

/-- A session that a thread is registering is `created`, and no other thread is registering it. -/
def Early (x : Scene) : Prop :=
  ∀ i s id e how, x.threads i = some (.registers s id e how) →
    (x.node.roll.standing s).phase = .created ∧
      ∀ j id' e' how', x.threads j = some (.registers s id' e' how') → j = i

/-- A scene stays early if threads register what they did before, and these sessions stay
`created`. -/
theorem Early.of_registers (h : x.Early)
    (before : ∀ i s id e how, x'.threads i = some (.registers s id e how) →
      (∃ id' e' how', x.threads i = some (.registers s id' e' how')) ∧
        ((x.node.roll.standing s).phase = .created → (x'.node.roll.standing s).phase = .created)) :
    x'.Early := by
  intro i s id e how busy
  obtain ⟨⟨_, _, _, there⟩, stays⟩ := before i s id e how busy
  obtain ⟨created, alone⟩ := h i s _ _ _ there
  refine ⟨stays created, fun j id' e' how' busy' => ?_⟩
  obtain ⟨⟨_, _, _, there'⟩, _⟩ := before j s id' e' how' busy'
  exact alone j _ _ _ there'

theorem early_next (h : x.Early) (busy : x.threads i = some th) : (x.advance i th).Early := by
  refine h.of_registers fun j s id e how busy' => ?_
  by_cases here : j = i
  · subst here
    change Function.update x.threads j (th.next x.node).2 j = _ at busy'
    rw [Function.update_self] at busy'
    cases th with
    | registers t id' e' how' =>
      cases Node.session_next busy'
      have early : e' ≠ .establish := by
        rintro rfl
        cases busy'
      refine ⟨⟨_, _, _, busy⟩, fun created => ?_⟩
      show (((Thread.registers s id' e' how').next x.node).1.roll.standing s).phase = _
      rw [node_registers, phase_joining _ _ _ early, created]
    | follows t how' =>
      cases how' with
      | handed | triggered => cases busy'
      | received =>
        simp only [Thread.next] at busy'
        split at busy' <;> cases busy'
    | deregisters t l =>
      obtain ⟨_, _, now⟩ := Option.map_eq_some_iff.1 busy'
      cases now
  · change Function.update x.threads i (th.next x.node).2 j = _ at busy'
    rw [Function.update_of_ne here] at busy'
    refine ⟨⟨_, _, _, busy'⟩, fun created => ?_⟩
    show ((th.next x.node).1.roll.standing s).phase = _
    by_cases same : th.session = s
    · subst same
      cases th with
      | registers t id' e' how' => exact absurd ((h j _ _ _ _ busy').2 i _ _ _ busy).symm here
      | follows t how' =>
        rw [roll_follows]
        exact created
      | deregisters t l =>
        obtain ⟨isRegistered, standing⟩ := x.node.standing_leaving t l
        show ((l.next x.node t).1.roll.standing t).phase = _
        rw [standing]
        exact created
    · rw [(Node.stated_next x.node th).standing same]
      exact created

theorem registers_of_update {threads : Nat → Option Thread} {l : Leaving} {j : Nat}
    {id : ContractId} {e : Joining} {how : Showing}
    (busy : Function.update threads i (some (.deregisters t l)) j =
      some (.registers s id e how)) : threads j = some (.registers s id e how) := by
  by_cases here : j = i
  · subst here
    rw [Function.update_self] at busy
    cases busy
  · rwa [Function.update_of_ne here] at busy

theorem early_stage (h : x.Early) (stage : Stage P x x') : x'.Early := by
  cases stage with
  | move move spares =>
    refine h.of_registers fun i s id e how busy => ⟨⟨_, _, _, busy⟩, fun created => ?_⟩
    exact (congrArg Standing.phase (spares s ⟨i, id, e, how, busy⟩).standing).trans created
  | told =>
    exact h.of_registers fun j s id e how busy =>
      ⟨⟨_, _, _, registers_of_update busy⟩, fun created => created⟩
  | @halts i t n' halts free =>
    refine h.of_registers fun j s id e how busy => ?_
    have there := registers_of_update busy
    refine ⟨⟨_, _, _, there⟩, fun created => ?_⟩
    have other : t ≠ s := fun same => free ⟨j, id, e, how, same ▸ there⟩
    obtain ⟨m, r, shown, roll⟩ := Node.roll_halts halts
    show (n'.roll.standing s).phase = _
    rw [roll, Roll.standing_put_other _ other, Roll.standing_shown_other shown other]
    exact created
  | @lists i t m how n' ses id d fetches free idle found created =>
    have same : n'.roll = x.node.roll := roll_fetches fetches
    have new : (n'.roll.standing t).phase = .created := by
      rw [Node.standing_of_found found]
      exact created
    have elsewhere (j : Nat) (here : j ≠ i) (o : Option Thread) :
        Function.update x.threads i o j = x.threads j := Function.update_of_ne here ..
    have only (j : Nat) {id' : ContractId} {e' : Joining} {how' : Showing}
        (busy : Function.update x.threads i (some (.registers t id .flag how)) j =
          some (.registers t id' e' how')) : j = i := by
      by_contra here
      rw [elsewhere j here] at busy
      exact free ⟨j, _, _, _, busy⟩
    intro j s id' e' how' busy
    change Function.update x.threads i (some (.registers t id .flag how)) j = _ at busy
    by_cases here : j = i
    · subst here
      rw [Function.update_self] at busy
      cases busy
      exact ⟨new, fun j' id'' e'' how'' busy' => only j' busy'⟩
    · rw [elsewhere j here] at busy
      obtain ⟨created', alone⟩ := h j s id' e' how' busy
      refine ⟨(congrArg (fun r : Roll => (r.standing s).phase) same).trans created', ?_⟩
      intro j' id'' e'' how'' busy'
      change Function.update x.threads i (some (.registers t id .flag how)) j' = _ at busy'
      by_cases here' : j' = i
      · subst here'
        rw [Function.update_self] at busy'
        cases busy'
        exact absurd ⟨j, _, _, _, busy⟩ free
      · rw [elsewhere j' here'] at busy'
        exact alone j' _ _ _ busy'
  | next busy => exact early_next h busy

theorem ended_stage (h : x.Early) (stage : Stage P x x')
    (ended : (x.node.roll.standing s).phase = .ended) :
    (x'.node.roll.standing s).phase = .ended := by
  cases stage with
  | move move =>
    cases found : x.node.session? s with
    | none =>
      rw [Node.standing_of_missing found] at ended
      cases ended
    | some ses =>
      rw [Node.standing_of_found found] at ended
      obtain ⟨ses', found', stays⟩ :=
        (Node.upholds_move Session.lasting_ended move).kept s ses found
      exact (congrArg Standing.phase (Node.standing_of_found found')).trans (stays ended)
  | told => exact ended
  | @halts i t n' halts =>
    obtain ⟨m, r, shown, roll⟩ := Node.roll_halts halts
    show (n'.roll.standing s).phase = _
    rw [roll]
    by_cases same : t = s
    · rw [same, Roll.standing_put_self]
    · rw [Roll.standing_put_other _ same, Roll.standing_shown_other shown same]
      exact ended
  | lists fetches =>
    exact (congrArg (fun r : Roll => (r.standing s).phase) (roll_fetches fetches)).trans ended
  | @next i th busy =>
    show ((th.next x.node).1.roll.standing s).phase = _
    by_cases same : th.session = s
    · subst same
      cases th with
      | registers t id e how => cases ended.symm.trans (h i t id e how busy).1
      | follows t how =>
        rw [roll_follows]
        exact ended
      | deregisters t l =>
        obtain ⟨isRegistered, standing⟩ := x.node.standing_leaving t l
        show ((l.next x.node t).1.roll.standing t).phase = _
        rw [standing]
        exact ended
    · rw [(Node.stated_next x.node th).standing same]
      exact ended

/-! ## Once a session has ended -/

/-- Sessions that have ended were started, and send nothing more. -/
structure Over (n : Node) : Prop where
  driven : ∀ s ses, n.session? s = some ses → ses.Driven
  mute : n.Mute

namespace Over

variable {n n' : Node}

theorem modify (h : Over n) (t : SessionId) {f : Session → Session}
    (keeps : ∀ ses, n.session? t = some ses → ses.Driven → ses.Mute → (f ses).Driven ∧ (f ses).Mute) :
    Over (n.modify t f) := by
  have both (s : SessionId) (ses : Session) (found : (n.modify t f).session? s = some ses) :
      ses.Driven ∧ ses.Mute := by
    rcases Node.session?_modify_cases found with ⟨rfl, ses', there, rfl⟩ | ⟨_, there⟩
    · exact keeps ses' there (h.driven _ _ there) (h.mute _ _ there)
    · exact ⟨h.driven _ _ there, h.mute _ _ there⟩
  exact ⟨fun s ses found => (both s ses found).1, fun s ses found => (both s ses found).2⟩

theorem outside (h : Over n) (same : n'.sessions = n.sessions) : Over n' := by
  refine ⟨fun s ses found => h.driven s ses ?_, fun s ses found => h.mute s ses ?_⟩
  all_goals
    unfold Node.session? at found ⊢
    rwa [← same]

theorem move (h : Over n) (move : Node.Move P n n') : Over n' := by
  refine ⟨fun s ses' found' => ?_, (Node.orders_move move).mute h.mute⟩
  have upholds := Node.upholds_move Session.lasting_driven move
  cases found : n.session? s with
  | none =>
    exact upholds.fresh (fun _ _ _ => ⟨fun on => absurd rfl on, fun ended => by cases ended⟩) s ses'
      found found'
  | some ses =>
    obtain ⟨ses'', same, keeps⟩ := upholds.kept s ses found
    cases Option.some.inj (found'.symm.trans same)
    exact keeps (h.driven s ses found)

theorem of_deregister (h : Over (n.deregister t)) : Over n := by
  have both (s : SessionId) (ses : Session) (found : n.session? s = some ses) :
      ses.Driven ∧ ses.Mute := by
    obtain ⟨isRegistered, there⟩ := Node.session?_of_deregister found t
    have driven := h.driven s _ there
    have mute := h.mute s _ there
    exact ⟨⟨driven.loops, driven.ended⟩, fun ended => mute ended⟩
  exact ⟨fun s ses found => (both s ses found).1, fun s ses found => (both s ses found).2⟩

theorem leaving (h : Over n) (t : SessionId) (l : Leaving) : Over (l.next n t).1 := by
  cases l with
  | strike =>
    simp only [Leaving.next]
    split
    · exact h.modify t fun ses _ driven mute => ⟨⟨driven.loops, driven.ended⟩, mute⟩
    · exact h
  | look => exact h
  | vacate => exact h.outside rfl

/-- A session that has not ended changes, and its loops stay as they are. -/
theorem modify_early (h : Over n) {f : Session → Session}
    (live : ∀ ses, n.session? t = some ses → (f ses).phase ≠ .ended)
    (inbound : ∀ ses, (f ses).inbound = ses.inbound)
    (outbound : ∀ ses, (f ses).outbound = ses.outbound) : Over (n.modify t f) := by
  refine h.modify t fun ses found driven _ => ?_
  have early := live ses found
  refine ⟨⟨?_, fun ended => absurd ended early⟩, fun ended => absurd ended early⟩
  rw [inbound, outbound]
  exact driven.loops

theorem joining {id : ContractId} {e : Joining} (h : Over n)
    (created : ∀ ses, n.session? t = some ses → ses.phase = .created) :
    Over (e.next n t id).1 := by
  have live (ses : Session) (found : n.session? t = some ses) : ses.phase ≠ .ended := by
    rw [created ses found]
    exact Phase.noConfusion
  cases e with
  | flag | identity | place => exact h.modify_early live (fun _ => rfl) fun _ => rfl
  | tell =>
    simp only [Joining.next]
    rcases n.send_cases t { kind := .registered } with ⟨e, sent⟩ | ⟨ses', link, _, _, sent⟩
    · rw [sent]
      exact h
    · rw [sent]
      exact h.modify_early live (fun _ => rfl) fun _ => rfl
  | establish =>
    have both : (n.modify t Session.announce).setPhase t .established =
        n.modify t fun ses => { ses.announce with phase := .established } := Node.modify_modify ..
    show Over ((n.modify t Session.announce).setPhase t .established)
    rw [both]
    have abides (ses : Session) : ses.Abides ses.announce := ses.talks_announce.steady.abides
    exact h.modify_early (fun _ _ => Phase.noConfusion) (fun ses => (abides ses).inbound)
      fun ses => (abides ses).outbound
  | undo l => exact h.leaving t l

theorem follows {how : Showing} (h : Over n) : Over ((Thread.follows t how).next n).1 := by
  cases how with
  | handed => exact h
  | received =>
    simp only [Thread.next]
    split
    · rename_i ended
      -- the session has ended before, so that nothing is told to anyone
      have halted : n.haltInbound t =
          n.modify t fun ses => { ses with inbound := .stopped, phase := .ended }.stop := by
        obtain ⟨ses, found, phase⟩ := (Option.any_eq_true ..).1 ended
        have still : ((n.modify t fun ses => { ses with inbound := .stopped }).session? t).any
            (·.phase == .ended) = true := by
          rw [Node.session?_modify found]
          exact phase
        unfold Node.haltInbound Node.shut
        rw [if_pos still, Node.modify_modify]
        rfl
      rw [halted]
      obtain ⟨ses, found, phase⟩ := (Option.any_eq_true ..).1 ended
      refine h.modify t fun ses' found' driven _ => ?_
      cases Option.some.inj (found.symm.trans found')
      have on := driven.ended (beq_iff_eq.1 phase)
      exact ⟨⟨fun _ => on, fun _ => on⟩, fun _ => rfl⟩
    · exact h
  | triggered c =>
    simp only [Thread.next]
    split
    · refine h.modify t fun ses _ driven mute => ?_
      have abides : ses.Abides (ses.sendAnyway c.message) :=
        (ses.talks_sendAnyway c.message).steady.abides
      refine ⟨Session.lasting_driven.abides abides driven, fun ended => ?_⟩
      exact (ses.fills_sendAnyway c.message).closed (mute (abides.phase ▸ ended))
    · exact h

end Over

theorem over_stage (early : x.Early) (h : Over x.node) (stage : Stage P x x') : Over x'.node := by
  cases stage with
  | move move => exact h.move move
  | told => exact h
  | halts halts => exact (h.move (P := P) halts.move).of_deregister
  | @lists i t m how n' ses id d fetches =>
    have fetched : Over n' := by
      cases fetches with
      | handed => exact h
      | received | triggered =>
        exact h.modify t fun ses _ driven mute => ⟨⟨driven.loops, driven.ended⟩, mute⟩
    exact fetched.outside rfl
  | @next i th busy =>
    cases th with
    | registers t id e how =>
      show Over ((Thread.registers t id e how).next x.node).1
      rw [node_registers]
      refine h.joining fun ses found => ?_
      have created := (early i t id e how busy).1
      rwa [Node.standing_of_found found] at created
    | follows t how => exact h.follows
    | deregisters t l => exact h.leaving t l

theorem over_stages {channels historyless system : List String} {drill : Drill}
    (stages : Stages P (still (Node.withChannels channels historyless system drill)) x) :
    x.Early ∧ Over x.node := by
  induction stages with
  | refl =>
    refine ⟨fun i s id e how busy => absurd ⟨i, id, e, how, busy⟩ (not_held_still _ s), ?_, ?_⟩
    · intro s ses found
      cases found
    · intro s ses found
      cases found
  | tail _ stage ih => exact ⟨early_stage ih.1 stage, over_stage ih.1 ih.2 stage⟩

end Scene

end ContractNode
