import ContractNode.Proofs.Moves
import ContractNode.Proofs.Proper

/-!
# The roll of a node

What is known of the registration of sessions: the directory they share, and as what each of them
takes itself to be registered. Most of what a node does leaves it alone.

* `Standing`, `Roll`, `Node.roll` : what is known of one session, and of all;
* `Roll.withdraw`, `Roll.finish`, `Roll.Shown` : a session gives its key up, it ends, it is shown a
  message;
* `roll_act`, `roll_shows`, `roll_move` : what acts, messages and moves do to the roll.
-/

namespace ContractNode

/-- Where a session is in its life, and as what it takes itself to be registered. -/
structure Standing where
  phase : Phase
  isRegistered : Bool := false
  identity : Option ContractId := none
  place : Option ContractInstance := none

def Session.standing (ses : Session) : Standing :=
  ⟨ses.phase, ses.isRegistered, ses.identity, ses.place⟩

/-- The directory, and the standing of every session. -/
@[ext] structure Roll where
  directory : Directory
  standing : SessionId → Standing

namespace Roll

def put (r : Roll) (s : SessionId) (st : Standing) : Roll :=
  { r with standing := fun t => if s = t then st else r.standing t }

@[simp] theorem directory_put (r : Roll) (s : SessionId) (st : Standing) :
    (r.put s st).directory = r.directory := rfl

@[simp] theorem standing_put_self (r : Roll) (s : SessionId) (st : Standing) :
    (r.put s st).standing s = st := if_pos rfl

theorem standing_put_other (r : Roll) {s t : SessionId} (other : s ≠ t) (st : Standing) :
    (r.put s st).standing t = r.standing t := if_neg other

@[simp] theorem put_put (r : Roll) (s : SessionId) (st st' : Standing) :
    (r.put s st).put s st' = r.put s st' := by
  refine Roll.ext rfl (funext fun t => ?_)
  by_cases same : s = t
  · subst same
    simp
  · simp [standing_put_other _ same]

/-- The directory without the key of an instance, if there is one. -/
def without (d : Directory) : Option ContractInstance → Directory
  | none => d
  | some i => d.deregister i.key

def withdraw (r : Roll) (s : SessionId) : Roll :=
  if (r.standing s).isRegistered = true then
    { r with directory := without r.directory (r.standing s).place }.put s
      { r.standing s with isRegistered := false }
  else r

def finish (r : Roll) (s : SessionId) : Roll :=
  (r.withdraw s).put s { (r.withdraw s).standing s with phase := .ended }

/-- A session takes a key of the directory, which becomes `d`. -/
def enlist (r : Roll) (s : SessionId) (phase : Phase) (id : ContractId) (d : Directory) : Roll :=
  { r with directory := d }.put s ⟨phase, true, some id, some (ContractInstance.ofName id.name)⟩

/-- What it does to the roll that a session is shown a message: nothing, or the session is
registered, or that it is cannot be told, or the session becomes ready. -/
inductive Shown (r : Roll) (s : SessionId) (m : Message) : Roll → Prop
  | ignored : Shown r s m r
  | enlisted {id : ContractId} {d : Directory} (created : (r.standing s).phase = .created)
      (raised : Event.ofKind? m.kind = some .registered)
      (decoded : ContractId.codec.decode m.payload = .ok id)
      (free : r.directory.register (ContractInstance.ofName id.name).key s = .ok d) :
      Shown r s m (r.enlist s .established id d)
  | untold {id : ContractId} {d : Directory} (created : (r.standing s).phase = .created)
      (free : r.directory.register (ContractInstance.ofName id.name).key s = .ok d) :
      Shown r s m ((r.enlist s .created id d).withdraw s)
  | readied (established : (r.standing s).phase = .established)
      (raised : Event.ofKind? m.kind = some .ready) :
      Shown r s m (r.put s { r.standing s with phase := .ready })

variable {r r' : Roll} {s t : SessionId} {m : Message}

theorem standing_withdraw_other (r : Roll) (other : s ≠ t) :
    (r.withdraw s).standing t = r.standing t := by
  unfold withdraw
  split
  · exact standing_put_other _ other _
  · rfl

theorem standing_withdraw (r : Roll) (s : SessionId) :
    (r.withdraw s).standing s = { r.standing s with isRegistered := false } := by
  unfold withdraw
  split
  · exact standing_put_self ..
  · rename_i off
    generalize r.standing s = st at off ⊢
    obtain ⟨_, registered, _, _⟩ := st
    cases registered with
    | true => exact absurd rfl off
    | false => rfl

theorem standing_finish_other (r : Roll) (other : s ≠ t) :
    (r.finish s).standing t = r.standing t :=
  (standing_put_other _ other _).trans (standing_withdraw_other r other)

theorem standing_finish (r : Roll) (s : SessionId) :
    (r.finish s).standing s = { r.standing s with phase := .ended, isRegistered := false } := by
  unfold finish
  rw [standing_put_self, standing_withdraw]

theorem standing_shown_other (shown : r.Shown s m r') (other : s ≠ t) :
    r'.standing t = r.standing t := by
  cases shown with
  | ignored => rfl
  | enlisted => exact standing_put_other _ other _
  | untold => exact (standing_withdraw_other _ other).trans (standing_put_other _ other _)
  | readied => exact standing_put_other _ other _

end Roll

namespace Node

/-- What is known of the registration of sessions. One that was not opened yet is like one that has
just been opened. -/
def roll (n : Node) : Roll where
  directory := n.directory
  standing s := ((n.session? s).map Session.standing).getD { phase := .created }

variable {n n' : Node} {s : SessionId} {ses : Session}

theorem standing_of_found (found : n.session? s = some ses) :
    n.roll.standing s = ses.standing := by
  show ((n.session? s).map Session.standing).getD _ = ses.standing
  rw [found]
  rfl

theorem standing_of_missing (missing : n.session? s = none) :
    n.roll.standing s = { phase := .created } := by
  show ((n.session? s).map Session.standing).getD _ = _
  rw [missing]
  rfl

/-! ## What leaves the roll alone -/

theorem Steady.roll (h : Steady n n') : n'.roll = n.roll := by
  refine Roll.ext h.directory (funext fun t => ?_)
  · show ((n'.session? t).map Session.standing).getD _ =
      ((n.session? t).map Session.standing).getD _
    have related := h.sessions t
    generalize n.session? t = here at related ⊢
    generalize n'.session? t = there at related ⊢
    cases related with
    | none => rfl
    | some steady =>
      have vitals := steady.vitals
      simp only [Session.vitals, Prod.mk.injEq] at vitals
      obtain ⟨phase, registered, identity, place, _, _⟩ := vitals
      simp only [Option.map_some, Option.getD_some, Session.standing, phase, registered, identity,
        place]

theorem Inside.steady (h : Inside n n') : Steady n n' := by
  refine ⟨by rw [h.rest], ?_⟩
  intro t
  have related := h.sessions t
  generalize n.session? t = here at related ⊢
  generalize n'.session? t = there at related ⊢
  cases related with
  | none => exact .none
  | some inside =>
    refine .some ⟨?_, ?_⟩
    · rw [inside.rest]
      rfl
    · intro order
      rw [inside.rest]
      exact order

theorem steady_reply (n : Node) (s : SessionId) (kind : RequestKind) (m : Message) :
    Steady n (n.modify s (·.reply kind m)) :=
  .modify n s fun ses _ => (ses.talks_reply kind m).steady

theorem steady_claim (n : Node) (s : SessionId) (k : String) :
    Steady n (n.modify s (·.claim k)) := .apart n s fun _ => ⟨rfl, rfl⟩

/-- Serving a request leaves every session as what it is registered. -/
theorem steady_serve (n : Node) (s : SessionId) (job : Job) : Steady n (n.serve s job).2 := by
  cases found : n.session? s with
  | none =>
    simp only [serve, found]
    exact .refl n
  | some ses =>
    have dealt := dealt_serve found job
    generalize n.serve s job = p at dealt ⊢
    obtain ⟨_, n'⟩ := p
    cases dealt with
    | dropped => exact .refl _
    | answered free inside course => exact inside.steady.trans (steady_reply ..)
    | @stored ctx sim space w l stores =>
      have wrote : Steady n { n with ledger := l } := .outside rfl rfl
      exact wrote.trans (steady_reply ..)
    | parked => exact steady_claim ..
    | calling => exact (steady_claim ..).trans (steady_began ..)

theorem steady_work? (took : n.work? s = some n') : Steady n n' := by
  unfold work? at took
  split at took
  · cases took
  · split at took
    · cases took
    · cases took
      exact .apart n s fun _ => ⟨rfl, rfl⟩
    · rename_i job pool _
      cases Option.some.inj took
      have begun : Steady n (n.modify s fun ses => { ses with pool }) :=
        .apart n s fun _ => ⟨rfl, rfl⟩
      have served := begun.trans (steady_serve _ s job)
      generalize (n.modify s fun ses => { ses with pool }).serve s job = p at served ⊢
      obtain ⟨parked, n₁⟩ := p
      cases parked with
      | none => exact served.trans (.apart n₁ s fun _ => ⟨rfl, rfl⟩)
      | some p => exact served.trans (.apart n₁ s fun _ => ⟨rfl, rfl⟩)

theorem steady_dial (n : Node) (s : SessionId) (m : Message) : Steady n (n.dial s m) := by
  have started : Steady n (n.modify s (·.pickUp m)) :=
    .apart n s fun _ => ⟨rfl, rfl⟩
  exact started.trans (steady_serve ..)

theorem steady_resume? (took : n.resume? s = some n') : Steady n n' := by
  unfold resume? at took
  split at took
  · cases took
  · obtain ⟨p, _, rfl⟩ := Option.map_eq_some_iff.1 took
    rw [resume_eq]
    refine Steady.trans ?_ (steady_reply ..)
    exact .apart n s fun _ => ⟨rfl, rfl⟩

theorem steady_submit (n : Node) (s : SessionId) (job : Job) : Steady n (n.submit s job).2 := by
  unfold submit Session.submit
  cases found : n.session? s with
  | none => exact .refl n
  | some ses =>
    simp only
    generalize ses.pool.submit job = p
    obtain ⟨done, pool⟩ := p
    cases done with
    | false =>
      show Steady n n
      exact .refl n
    | true =>
      show Steady n (n.modify s fun _ => { ses with pool })
      refine .modify n s fun ses' found' => ?_
      cases Option.some.inj (found.symm.trans found')
      exact ⟨rfl, id⟩

/-! ## What changes the roll -/

theorem roll_modify (found : n.session? s = some ses) (f : Session → Session) :
    (n.modify s f).roll = n.roll.put s (f ses).standing := by
  refine Roll.ext rfl (funext fun t => ?_)
  by_cases same : s = t
  · subst same
    rw [Roll.standing_put_self, standing_of_found (session?_modify found)]
  · rw [Roll.standing_put_other _ same]
    show (((n.modify s f).session? t).map Session.standing).getD _ = _
    rw [session?_modify_if, if_neg same]
    rfl

theorem roll_withDirectory (n : Node) (d : Directory) :
    { n with directory := d }.roll = { n.roll with directory := d } := rfl

theorem roll_deregister (n : Node) (s : SessionId) :
    (n.deregister s).roll = n.roll.withdraw s := by
  unfold deregister Roll.withdraw
  cases found : n.session? s with
  | none =>
    rw [standing_of_missing found]
    rfl
  | some ses =>
    rw [standing_of_found found]
    show Node.roll (if ses.isRegistered = true then _ else n) =
      if ses.isRegistered = true then _ else n.roll
    split
    · have off : (n.modify s fun ses => { ses with isRegistered := false }).roll =
          n.roll.put s { ses.standing with isRegistered := false } := roll_modify found _
      show Node.roll (match ses.place with | none => _ | some i => _) =
        { n.roll with directory := Roll.without n.directory ses.place }.put s _
      cases ses.place with
      | none => exact off
      | some i => rw [roll_withDirectory, off]; rfl
    · rfl

theorem roll_listed (found : n.session? s = some ses) (id : ContractId) (d : Directory) :
    (n.listed s id d).roll = n.roll.enlist s ses.phase id d :=
  roll_modify (n := { n with directory := d }) found _

theorem roll_setPhase {r : Roll} (same : n.roll = r) (found : n.session? s = some ses)
    (phase : Phase) : (n.setPhase s phase).roll = r.put s { r.standing s with phase } := by
  subst same
  rw [standing_of_found found]
  exact roll_modify found _

theorem roll_endSession (found : n.session? s = some ses) :
    (n.endSession s).roll = n.roll.finish s := by
  -- whoever is told before, gives up its key and stops
  have closes {m : Node} {ses' : Session} (found' : m.session? s = some ses')
      (same : m.roll = n.roll) : (m.closed s).roll = n.roll.finish s := by
    have off := session?_deregister found'
    show ((m.deregister s).modify s _).roll = _
    rw [roll_modify off, roll_deregister, same]
    have left := standing_of_found off
    rw [roll_deregister, same] at left
    unfold Roll.finish
    rw [left]
    rfl
  rw [endSession_eq found]
  split
  · exact closes found rfl
  · have steady := n.steady_farewelled s
    obtain ⟨ses', found', _⟩ := steady.forth found
    exact closes found' steady.roll

theorem roll_modify_same (n : Node) (s : SessionId) {f : Session → Session}
    (h : ∀ ses, (f ses).standing = ses.standing) : (n.modify s f).roll = n.roll := by
  refine Roll.ext rfl (funext fun t => ?_)
  show (((n.modify s f).session? t).map Session.standing).getD _ = _
  rw [session?_modify_if]
  split
  · rw [Option.map_map, funext h (f := Session.standing ∘ f)]
    rfl
  · rfl

theorem roll_stopInbound (found : n.session? s = some ses) :
    (n.stopInbound s).roll = n.roll.finish s := by
  have halted : (n.modify s fun ses => { ses with inbound := .stopped }).roll = n.roll :=
    roll_modify_same n s fun _ => rfl
  unfold stopInbound
  rw [roll_endSession (session?_modify found), halted]

theorem roll_stopOutbound (found : n.session? s = some ses) :
    (n.stopOutbound s).roll = n.roll.finish s := by
  rw [← roll_endSession found]
  exact roll_modify_same _ s fun _ => rfl

/-! ## Messages -/

theorem shown_handle (n : Node) (s : SessionId) (m : Message) :
    n.roll.Shown s m (n.handle s m).roll := by
  have handled := handled_handle n s m
  generalize n.handle s m = n' at handled ⊢
  cases handled with
  | missing | ignored => exact .ignored
  | passes =>
    rw [(Steady.modify n s fun ses _ => ses.steady_notify m).roll]
    exact .ignored
  | calls =>
    have same : (n.modify s (·.dial m)).roll = n.roll := roll_modify_same n s fun _ => rfl
    rw [same]
    exact .ignored
  | submits =>
    rw [(steady_submit ..).roll]
    exact .ignored
  | @readies ses found established raised =>
    have told : Steady n (n.modify s (·.notify m)) := .modify n s fun ses _ => ses.steady_notify m
    rw [roll_setPhase told.roll (session?_modify found)]
    refine .readied ?_ raised
    rw [standing_of_found found]
    exact established
  | @registers ses n' found created registered raised =>
    have registering := registering_register n s m
    rw [registered] at registering
    change Registering n s m (.ok ()) n' at registering
    cases registering with
    | @told _ id d link free sent decoded =>
      have listed : (n.listed s id d).session? s = some _ :=
        session?_modify (n := { n with directory := d }) found
      have linked : Steady (n.listed s id d) n' := by
        rw [sent]
        exact .apart _ s fun _ => ⟨rfl, rfl⟩
      have announced : Steady n' (n'.modify s Session.announce) :=
        .modify n' s fun ses _ => ses.talks_announce.steady
      obtain ⟨ses', found', _⟩ := (linked.trans announced).forth listed
      have same := (linked.trans announced).roll.trans (roll_listed found id d)
      rw [roll_setPhase same found']
      unfold Roll.enlist
      rw [Roll.put_put, Roll.standing_put_self]
      refine .enlisted ?_ raised decoded free
      rw [standing_of_found found]
      exact created
  | @refused ses n' e found created refused =>
    have standing : (n.roll.standing s).phase = .created := by
      rw [standing_of_found found]
      exact created
    have registering := registering_register n s m
    rw [refused] at registering
    change Registering n s m (.error e) n' at registering
    cases registering with
    | refused e =>
      rw [phase_found found created]
      exact .ignored
    | @unsent _ id d e free given decoded =>
      have listed : (n.listed s id d).session? s = some _ :=
        session?_modify (n := { n with directory := d }) found
      have off := session?_deregister listed
      rw [given, phase_found off created, roll_deregister, roll_listed found, created]
      exact .untold standing free

theorem roll_arrive {m : Message} (found : n.session? s = some ses) :
    ∃ r, n.roll.Shown s m r ∧ ((n.arrive s m).roll = r ∨ (n.arrive s m).roll = r.finish s) := by
  unfold arrive
  split
  · exact ⟨n.roll, .ignored, .inl rfl⟩
  · refine ⟨_, shown_handle n s m, ?_⟩
    simp only
    split
    · obtain ⟨ses', found', _⟩ := loops_handle m found
      exact .inr (roll_stopInbound found')
    · exact .inl rfl

theorem roll_carryOut {c : Command} (found : n.session? s = some ses) :
    ∃ r, n.roll.Shown s c.message r ∧
      ((n.carryOut s c).roll = r ∨ (n.carryOut s c).roll = r.finish s) := by
  refine ⟨_, shown_handle n s c.message, ?_⟩
  obtain ⟨ses', found', _⟩ := loops_handle c.message found
  unfold carryOut
  split
  · split
    · rcases sendNow_cases (n.handle s c.message) s c.message with sent | ⟨_, _, _, _, sent⟩
      · simp only [sent]
        exact .inr (roll_stopOutbound found')
      · simp only [sent]
        exact .inl (roll_modify_same _ s fun _ => rfl)
    · have told : Steady (n.handle s c.message)
          ((n.handle s c.message).modify s (·.sendAnyway c.message)) :=
        .modify _ s fun ses _ => (ses.talks_sendAnyway _).steady
      exact .inl told.roll
  · exact .inl rfl

/-- What it does to the roll that a session is shown a message: it may end after that. -/
theorem roll_shows {m : Message} (shows : Shows s m n n') :
    ∃ r, n.roll.Shown s m r ∧ (n'.roll = r ∨ n'.roll = r.finish s) := by
  cases shows with
  | handed => exact ⟨_, shown_handle n s m, .inl rfl⟩
  | @received _ ses inbox found running taken took =>
    have took' : n' = (n.modify s (·.withInbox inbox)).arrive s m := by
      simp only [receive?, found, running, if_true, taken] at took
      exact (Option.some.inj took).symm
    have same : (n.modify s (·.withInbox inbox)).roll = n.roll := roll_modify_same n s fun _ => rfl
    rw [took', ← same]
    exact roll_arrive (session?_modify found)
  | @triggered _ ses c rest found running queued message took =>
    have took' : n' = (n.modify s fun ses => { ses with commands := rest }).carryOut s c := by
      simp only [command?, found, running, if_true, queued] at took
      exact (Option.some.inj took).symm
    have same : (n.modify s fun ses => { ses with commands := rest }).roll = n.roll :=
      roll_modify_same n s fun _ => rfl
    rw [took', ← same, ← message]
    exact roll_carryOut (session?_modify found)

/-! ## Moves -/

theorem steady_abandoned (n : Node) (s : SessionId) (c : Context) : Steady n (n.abandoned s c) :=
  .apart n s fun _ => ⟨rfl, rfl⟩

theorem steady_started {label : String} {kind : MessageKind} {Q : Context → Prop}
    (started : Started n s label kind Q n') : Steady n n' := by
  cases started with
  | refused => exact .outside rfl rfl
  | @stopped ses c e =>
    exact (steady_abandoned n s c).trans (.outside rfl rfl)
  | waits => exact steady_began ..

theorem steady_ready (n : Node) (s : SessionId) (channel tx : String)
    (signedProposal : Option SignedProposal) (proposal : Option Proposal) :
    Steady n (n.ready s channel tx signedProposal proposal).2 := by
  have readied := readied_ready n s channel tx signedProposal proposal
  generalize n.ready s channel tx signedProposal proposal = p at readied ⊢
  obtain ⟨_, n'⟩ := p
  cases readied with
  | refused => exact .refl _
  | stopped => exact .apart n s fun _ => ⟨rfl, rfl⟩
  | waits => exact .modify n s fun _ _ => ⟨rfl, List.mem_append_left _⟩

theorem steady_poll (n : Node) (s : SessionId) (c : Nat) : Steady n (n.poll s c).2 := by
  rcases n.poll_cases s c with ⟨_, polls⟩ | ⟨ctx, _, polls⟩
  · rw [polls]
    exact .refl n
  · rw [polls]
    exact .apart n s fun _ => ⟨rfl, rfl⟩

theorem roll_openSession (n : Node) (config : SessionConfig) (access : AccessPolicy)
    (launcher : Launcher) : (n.openSession config access launcher).2.roll = n.roll := by
  refine Roll.ext rfl (funext fun t => ?_)
  cases found : (n.openSession config access launcher).2.session? t with
  | none =>
    have missing : n.session? t = none := by
      cases found' : n.session? t with
      | none => rfl
      | some ses =>
        rw [session?_of_openSession config access launcher found'] at found
        cases found
    show (((n.openSession config access launcher).2.session? t).map Session.standing).getD _ =
      ((n.session? t).map Session.standing).getD _
    rw [found, missing]
  | some ses =>
    rw [standing_of_found found]
    rcases session?_openSession found with found' | ⟨missing, rfl⟩
    · rw [standing_of_found found']
    · show _ = ((n.session? t).map Session.standing).getD _
      rw [missing]
      rfl

end Node

/-- Whether an act changes the directory past the sessions. -/
def Act.isByHand : Act → Bool
  | .registerKey .. | .deregisterKey .. => true
  | _ => false

namespace Node

variable {P : Act → Prop} {n n' : Node}

theorem roll_start (n : Node) (s : SessionId) : (n.start s).2.roll = n.roll := by
  rcases n.start_cases s with same | ⟨ses, _, _, started⟩
  · rw [same]
  · rw [started]
    exact roll_modify_same n s fun _ => rfl

/-- What an act does to the roll: nothing, or a session is shown a message or gives its key up. -/
theorem roll_act (n : Node) {a : Act} (once : ∀ span, a ≠ .pass span)
    (bySession : a.isByHand = false) :
    (n.act a).roll = n.roll ∨ (∃ s m, a = .handle s m) ∨ ∃ s, a = .deregister s := by
  cases talker : a.talker? with
  | some s => exact .inl (steady_talks (n.talks_act talker)).roll
  | none =>
    cases a with
    | registerKey | deregisterKey => cases bySession
    | pass span => exact absurd rfl (once span)
    | handle s m => exact .inr (.inl ⟨s, m, rfl⟩)
    | deregister s => exact .inr (.inr ⟨s, rfl⟩)
    | openSession config access launcher => exact .inl (roll_openSession ..)
    | start s => exact .inl (roll_start n s)
    | notify s m => exact .inl (Steady.modify n s fun ses _ => ses.steady_notify m).roll
    | ready s channel tx signedProposal proposal => exact .inl (steady_ready ..).roll
    | poll s c => exact .inl (steady_poll n s c).roll
    | deleteContext s channel tx => exact .inl (roll_modify_same n s fun _ => rfl)
    | execute s label channel m signedProposal proposal =>
      exact .inl (steady_started (started_execute ..)).roll
    | run s label i => exact .inl (steady_started (started_run ..)).roll
    | seed channel tx space collection entries =>
      obtain ⟨ledger, given⟩ := n.seed_eq channel tx space collection entries
      show (n.seed channel tx space collection entries).2.roll = n.roll ∨ _
      rw [given]
      exact .inl rfl
    | createChannel | gate | ungate => exact .inl rfl
    | _ => cases talker

/-- What a move does to the roll: nothing, or a session is shown a message, or it gives its key up,
or it ends. -/
theorem roll_move (bySession : ∀ a, P a → a.isByHand = false) (move : Move P n n') :
    n'.roll = n.roll ∨ (∃ s m, Shows s m n n') ∨ (∃ s, n' = n.act (.deregister s)) ∨
      ∃ s, n'.roll = n.roll.finish s := by
  cases move with
  | act a given once =>
    rcases n.roll_act once (bySession a given) with same | ⟨s, m, rfl⟩ | ⟨s, rfl⟩
    · exact .inl same
    · exact .inr (.inl ⟨s, m, .handed⟩)
    · exact .inr (.inr (.inl ⟨s, rfl⟩))
  | finish waits finished => exact .inl (steady_finish? finished).roll
  | work took => exact .inl (steady_work? took).roll
  | dial => exact .inl (steady_dial ..).roll
  | resume took => exact .inl (steady_resume? took).roll
  | expire waits => exact .inl (steady_expire ..).roll
  | tick clock => exact .inl rfl
  | @command _ s took =>
    obtain ⟨ses, found⟩ := session?_of_turn took fun none => by simp [command?, none]
    have turn := took
    simp only [command?, found] at turn
    split at turn
    · rename_i running
      split at turn
      · cases turn
      · cases turn
        refine .inr (.inr (.inr ⟨s, ?_⟩))
        refine (roll_stopOutbound (session?_modify found)).trans ?_
        exact congrArg (Roll.finish · s) (roll_modify_same n s fun _ => rfl)
      · rename_i c rest queued
        exact .inr (.inl ⟨s, c.message, .triggered found running queued rfl took⟩)
    · cases turn
  | @receive _ s took =>
    obtain ⟨ses, found⟩ := session?_of_turn took fun none => by simp [receive?, none]
    have turn := took
    simp only [receive?, found] at turn
    split at turn
    · rename_i running
      split at turn
      · cases turn
      · cases turn
        exact .inr (.inr (.inr ⟨s, roll_stopInbound found⟩))
      · cases turn
        refine .inr (.inr (.inr ⟨s, ?_⟩))
        refine (roll_stopInbound (session?_modify found)).trans ?_
        exact congrArg (Roll.finish · s) (roll_modify_same n s fun _ => rfl)
      · rename_i m inbox taken
        exact .inr (.inl ⟨s, m, .received found running taken took⟩)
    · cases turn

end Node

end ContractNode
