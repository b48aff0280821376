import ContractNode.Proofs.Handling

/-!
# Contracts that register

* `Node.Admits` : a message has a contract register: it names the contract, whose key is free;
* `handle_of_admitted`, `handle_of_unsent`, `handle_of_unadmitted` : what a session in its first
  phase makes of a message;
* `handle_of_cancelled` : what a registration leaves that does not come to its end.
-/

namespace ContractNode

/-- A free key goes to a session. -/
def Directory.list (d : Directory) (key : String) (s : SessionId) : Directory :=
  { d with sessions := d.sessions.insert key s }

theorem Directory.register_of_free {d : Directory} {key : String} (free : d.isRegistered key = false)
    (s : SessionId) : d.register key s = .ok (d.list key s) := by
  simp [Directory.register, free, Directory.list]

/-- A key that was free is given back, and nothing is left of it. -/
theorem Directory.deregister_list {d : Directory} {key : String} (free : d.isRegistered key = false)
    (s : SessionId) : (d.list key s).deregister key = d := by
  have fresh : d.sessions.get? key = none := KeyMap.contains_eq_false_iff.1 free
  show { d with sessions := (d.sessions.insert key s).erase key } = d
  rw [Node.erase_insert fresh]

/-- A session whose contract has stated its identity, but is not registered. -/
def Session.named (ses : Session) (id : ContractId) : Session :=
  { ses with
    isRegistered := false, identity := some id, place := some (ContractInstance.ofName id.name) }

namespace Node

/-- A message has a contract register: it names the contract, whose key is free. -/
structure Admits (n : Node) (m : Message) (id : ContractId) : Prop where
  wants : m.kind = .register ∨ m.kind = .registered
  decoded : ContractId.codec.decode m.payload = .ok id
  free : n.directory.isRegistered (ContractInstance.ofName id.name).key = false

/-- The contract of a session goes into the directory, under its key. -/
def admitted (n : Node) (s : SessionId) (id : ContractId) : Node :=
  n.listed s id (n.directory.list (ContractInstance.ofName id.name).key s)

section Admission

variable {n : Node} {s : SessionId} {ses : Session} {m : Message} {id : ContractId}

/-- Both of the messages with which a contract may want to register ask the same of a lifecycle. -/
theorem registers_iff {kind : MessageKind} : Event.ofKind? kind = some .registered ↔
    kind = .register ∨ kind = .registered := by
  cases kind <;> simp [Event.ofKind?]

/-! ## Registration -/

/-- A session that holds a key gives it up. -/
theorem deregister_on {i : ContractInstance} (found : n.session? s = some ses)
    (on : ses.isRegistered = true) (place : ses.place = some i) : n.deregister s =
      { n with directory := n.directory.deregister i.key }.modify s fun ses =>
        { ses with isRegistered := false } := by
  simp only [deregister, found, on, if_true, place]
  rfl

theorem register_of_sent {link : Link} (found : n.session? s = some ses) (admits : n.Admits m id)
    (sent : ses.link.send { kind := .registered } = .ok link) :
    n.register s m = (.ok (), (n.admitted s id).modify s fun ses => { ses with link }) := by
  have listed : (n.admitted s id).session? s = some _ := session?_modify found
  have told : (n.admitted s id).send s { kind := .registered } =
      (.ok (), (n.admitted s id).modify s fun ses => { ses with link }) := by
    simp only [Node.send, listed, Session.send, sent]
    rw [modify_found listed fun ses => { ses with link }]
  unfold admitted Node.listed at told
  simp only [register, admits.decoded, Directory.register_of_free admits.free, told]
  rfl

/-- A contract that cannot be told that it is registered is taken out of the directory again, but
its session keeps the identity that it has stated. -/
theorem register_of_unsent {e : StreamError} (found : n.session? s = some ses)
    (admits : n.Admits m id) (failed : ses.link.send { kind := .registered } = .error e) :
    n.register s m = (.error (.stream e), n.modify s (·.named id)) := by
  have listed : (n.admitted s id).session? s = some _ := session?_modify found
  have untold : (n.admitted s id).send s { kind := .registered } =
      (.error (.stream e), n.admitted s id) := by
    simp only [Node.send, listed, Session.send, failed]
  have left : (n.admitted s id).deregister s = n.modify s (·.named id) := by
    have back : (n.admitted s id).directory.deregister (ContractInstance.ofName id.name).key =
        n.directory := n.directory.deregister_list admits.free s
    have bare : { n.admitted s id with directory := n.directory } = n.modify s fun ses =>
        { ses with
          isRegistered := true, identity := some id
          place := some (ContractInstance.ofName id.name) } := rfl
    rw [deregister_on listed rfl rfl, back, bare, modify_modify]
    rfl
  unfold admitted Node.listed at untold left
  simp only [register, admits.decoded, Directory.register_of_free admits.free, untold, left]

theorem register_of_unadmitted (wants : m.kind = .register ∨ m.kind = .registered)
    (unadmitted : ∀ id, ¬ n.Admits m id) : ∃ e, n.register s m = (.error e, n) := by
  cases decoded : ContractId.codec.decode m.payload with
  | error e => exact ⟨.codec e, by simp only [register, decoded]⟩
  | ok id =>
    have taken : n.directory.isRegistered (ContractInstance.ofName id.name).key = true := by
      refine Bool.of_not_eq_false fun free => unadmitted id ⟨wants, decoded, free⟩
    exact ⟨_, by simp only [register, decoded, Directory.register, taken, if_true]; rfl⟩

/-! ## Messages to a session in its first phase -/

/-- What wants to register, a session in its first phase lets. -/
theorem handle_of_wants (found : n.session? s = some ses) (created : ses.phase = .created)
    (wants : m.kind = .register ∨ m.kind = .registered) :
    n.handle s m = match n.register s m with
      | (.ok (), n') => (n'.modify s Session.announce).setPhase s .established
      | (.error _, n') => n'.setPhase s .created := by
  have raised := registers_iff.2 wants
  have apart : bypasses .created m.kind = false := rfl
  simp only [handle, found, created, apart, raised, Hooks.raise, Phase.next?, hooks, Hooks.run]
  rcases n.register s m with ⟨e | done, n'⟩
  · rfl
  · simp [Hooks.runEnter, Hooks.runAfter, Hooks.run, RequestKind.ofEvent?]

theorem handle_of_admitted {link : Link} (found : n.session? s = some ses)
    (created : ses.phase = .created) (admits : n.Admits m id)
    (sent : ses.link.send { kind := .registered } = .ok link) :
    n.handle s m = (((n.admitted s id).modify s fun ses => { ses with link }).modify s
      Session.announce).setPhase s .established := by
  rw [handle_of_wants found created admits.wants, register_of_sent found admits sent]

theorem handle_of_unsent {e : StreamError} (found : n.session? s = some ses)
    (created : ses.phase = .created) (admits : n.Admits m id)
    (failed : ses.link.send { kind := .registered } = .error e) :
    n.handle s m = n.modify s (·.named id) := by
  rw [handle_of_wants found created admits.wants, register_of_unsent found admits failed]
  exact phase_found (session?_modify found) created

/-- Whatever has no contract register leaves a session in its first phase as it is. -/
theorem handle_of_unadmitted (found : n.session? s = some ses) (created : ses.phase = .created)
    (unadmitted : ∀ id, ¬ n.Admits m id) : n.handle s m = n := by
  by_cases wants : m.kind = .register ∨ m.kind = .registered
  · obtain ⟨e, refused⟩ := register_of_unadmitted (s := s) wants unadmitted
    rw [handle_of_wants found created wants, refused]
    exact phase_found found created
  · have handled := handled_handle n s m
    generalize n.handle s m = n' at handled ⊢
    have other {ses' : Session} {phase : Phase} (found' : n.session? s = some ses')
        (reached : ses'.phase = phase) (apart : phase ≠ .created) : False := by
      cases Option.some.inj (found.symm.trans found')
      exact apart (reached.symm.trans created)
    cases handled with
    | missing | ignored => rfl
    | passes found' passes =>
      cases Option.some.inj (found.symm.trans found')
      rw [created] at passes
      cases passes
    | registers _ _ _ raised | refused _ _ _ raised =>
      exact absurd (registers_iff.1 raised) wants
    | readies found' reached | calls found' reached | submits found' reached =>
      exact (other found' reached Phase.noConfusion).elim

/-! ## Registrations that are cancelled -/

/-- A registration that does not come to its end leaves the session in its first phase, and the
directory as it was. Where the message does not name the contract, or its key is taken, it leaves
nothing else. Where the contract cannot be told, its session keeps the identity that the message
stated, with the place that goes with it, and that is all. -/
theorem handle_of_cancelled {n : Node} {s : SessionId} {ses : Session} {m : Message}
    (found : n.session? s = some ses) (created : ses.phase = .created)
    (cancelled : ((n.handle s m).session? s).map (·.phase) ≠ some .established) :
    ((n.handle s m).session? s).map (·.phase) = some .created ∧
      (n.handle s m).directory = n.directory ∧
        ((∀ id, ¬ n.Admits m id) ∧ n.handle s m = n ∨
          ∃ id e, n.Admits m id ∧ ses.send { kind := .registered } = .error e ∧
            n.handle s m = n.modify s (·.named id)) := by
  by_cases admitted : ∃ id, n.Admits m id
  · obtain ⟨id, admits⟩ := admitted
    cases sent : ses.link.send { kind := .registered } with
    | error e =>
      have failed : ses.send { kind := .registered } = .error (.stream e) := by
        simp only [Session.send, sent]
      rw [handle_of_unsent found created admits sent]
      refine ⟨?_, rfl, .inr ⟨id, _, admits, failed, rfl⟩⟩
      rw [session?_modify found]
      exact congrArg some created
    | ok link =>
      rw [handle_of_admitted found created admits sent] at cancelled
      have listed : (n.admitted s id).session? s = some _ := session?_modify found
      have reached := session?_modify (f := fun ses => { ses with phase := .established })
        (session?_modify (f := Session.announce)
          (session?_modify (f := fun ses => { ses with link }) listed))
      exact absurd (congrArg (Option.map (·.phase)) reached) cancelled
  · have unadmitted : ∀ id, ¬ n.Admits m id := fun id admits => admitted ⟨id, admits⟩
    rw [handle_of_unadmitted found created unadmitted, found]
    exact ⟨congrArg some created, rfl, .inl ⟨unadmitted, rfl⟩⟩

/-- A contract wants to register that cannot be told anything. -/
def mutedRun : List Act := [.openSession {} {} .directory, .breakSend 0 true]

theorem handle_of_cancelled_mutedRun :
    let n := (withChannels ["ch"] [] [] {}).steps mutedRun
    let m : Message := { kind := .register, payload := ContractId.codec.encode { name := "cc:1" } }
    ((n.handle 0 m).session? 0).map (·.phase) = some .created ∧
      (n.handle 0 m).directory = n.directory := by
  intro n m
  have there : (n.session? 0).any (·.phase == .created) = true := by decide +kernel
  obtain ⟨ses, found, created⟩ := (Option.any_eq_true ..).1 there
  obtain ⟨phase, directory, _⟩ := handle_of_cancelled (m := m) found (beq_iff_eq.1 created)
    (by decide +kernel)
  exact ⟨phase, directory⟩

/-- A session of which nothing was known keeps the identity that a contract has stated, though its
registration did not come to its end. -/
theorem identity_of_cancelled :
    let n := (withChannels ["ch"] [] [] {}).steps mutedRun
    let m : Message := { kind := .register, payload := ContractId.codec.encode { name := "cc:1" } }
    ((n.handle 0 m).session? 0).map (·.phase) = some .created ∧
      (n.session? 0).map (fun ses => (ses.identity, ses.place)) = some (none, none) ∧
      ((n.handle 0 m).session? 0).map (fun ses => (ses.identity, ses.place)) =
        some (some { name := "cc:1" }, some (ContractInstance.ofName "cc:1")) := by
  decide +kernel

end Admission

end Node

end ContractNode
