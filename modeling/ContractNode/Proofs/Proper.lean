import ContractNode.Proofs.AtRest

/-!
# Registration and the end of sessions

* `Session.Proper`, `Node.Proper` : the directory lists registered sessions that have not ended;
* `Node.Steady` : a change that leaves phases, loops and registration as they are;
* `Node.Shift` : what deeds do otherwise (`steady_or_shift`);
* `proper_deed` : deeds leave nodes proper.
-/

namespace ContractNode

/-- Where a session is in its life, as what it is registered, and where its loops are. -/
def Session.vitals (ses : Session) :
    Phase × Bool × Option ContractId × Option ContractInstance × Loop × Loop :=
  (ses.phase, ses.isRegistered, ses.identity, ses.place, ses.inbound, ses.outbound)

/-- Both loops are started at once, and a session that has just been opened is not registered. -/
structure Session.Proper (ses : Session) : Prop where
  loops : ses.inbound ≠ .idle → ses.outbound ≠ .idle
  unregistered : ses.phase = .created → ses.isRegistered = false

/-- A session is registered under a key and has not ended. -/
structure Session.Serves (ses : Session) (k : String) : Prop where
  registered : ses.isRegistered = true
  live : ses.phase ≠ .ended
  place : ∃ i, ses.place = some i ∧ i.key = k

/-- A session keeps its vitals, and an order to stop that is queued for its outbound loop. -/
structure Session.Steady (ses ses' : Session) : Prop where
  vitals : ses'.vitals = ses.vitals
  shutdown : .shutdown ∈ ses.commands → .shutdown ∈ ses'.commands

namespace Session

variable {ses ses' ses'' : Session}

namespace Steady

theorem refl (ses : Session) : ses.Steady ses := ⟨rfl, fun h => h⟩

theorem trans (h : ses.Steady ses') (h' : ses'.Steady ses'') : ses.Steady ses'' :=
  ⟨h'.vitals.trans h.vitals, fun order => h'.shutdown (h.shutdown order)⟩

theorem phase (h : ses.Steady ses') : ses'.phase = ses.phase := congrArg (·.1) h.vitals

theorem outbound (h : ses.Steady ses') : ses'.outbound = ses.outbound :=
  congrArg (·.2.2.2.2.2) h.vitals

theorem proper (h : ses.Steady ses') (proper : ses.Proper) : ses'.Proper := by
  obtain ⟨loops, unregistered⟩ := proper
  have vitals := h.vitals
  simp only [Session.vitals, Prod.mk.injEq] at vitals
  obtain ⟨phase, registered, _, _, inbound, outbound⟩ := vitals
  refine ⟨?_, ?_⟩
  · rwa [inbound, outbound]
  · rwa [phase, registered]

theorem serves (h : ses.Steady ses') {k : String} (serves : ses.Serves k) : ses'.Serves k := by
  have vitals := h.vitals
  simp only [Session.vitals, Prod.mk.injEq] at vitals
  obtain ⟨phase, registered, _, place, _, _⟩ := vitals
  exact ⟨registered.trans serves.registered, phase ▸ serves.live, place ▸ serves.place⟩

end Steady

theorem Talks.steady (h : ses.Talks ses') : ses.Steady ses' := by
  cases h with
  | intro link waiter commands kept => exact ⟨rfl, kept _⟩

theorem steady_notify (ses : Session) (m : Message) : ses.Steady (ses.notify m) := by
  unfold notify
  split
  · exact .refl ses
  · exact ⟨rfl, fun order => order⟩

end Session

namespace Node

/-- No session changes its vitals, nor the directory. -/
structure Steady (n n' : Node) : Prop where
  directory : n'.directory = n.directory
  sessions : ∀ s, Option.Rel Session.Steady (n.session? s) (n'.session? s)

namespace Steady

variable {n n' n'' : Node}

theorem refl (n : Node) : Steady n n :=
  ⟨rfl, fun s => by cases n.session? s with
    | none => exact .none
    | some ses => exact .some (.refl ses)⟩

theorem forth (h : Steady n n') {s : SessionId} {ses : Session} (found : n.session? s = some ses) :
    ∃ ses', n'.session? s = some ses' ∧ ses.Steady ses' := by
  have related := h.sessions s
  rw [found] at related
  generalize n'.session? s = there at related ⊢
  cases related with
  | some steady => exact ⟨_, rfl, steady⟩

theorem back (h : Steady n n') {s : SessionId} {ses' : Session}
    (found' : n'.session? s = some ses') :
    ∃ ses, n.session? s = some ses ∧ ses.Steady ses' := by
  have related := h.sessions s
  rw [found'] at related
  generalize n.session? s = there at related ⊢
  cases related with
  | some steady => exact ⟨_, rfl, steady⟩

theorem trans (h : Steady n n') (h' : Steady n' n'') : Steady n n'' := by
  refine ⟨h'.directory.trans h.directory, fun s => ?_⟩
  have first := h.sessions s
  have second := h'.sessions s
  generalize n.session? s = here at first ⊢
  generalize n'.session? s = there at first second
  cases first with
  | none => exact second
  | some steady =>
    generalize n''.session? s = there'' at second ⊢
    cases second with
    | some steady' => exact .some (steady.trans steady')

theorem modify (n : Node) (s : SessionId) {f : Session → Session}
    (h : ∀ ses, n.session? s = some ses → ses.Steady (f ses)) : Steady n (n.modify s f) := by
  refine ⟨rfl, fun t => ?_⟩
  rw [session?_modify_if]
  cases found : n.session? t with
  | none =>
    split
    · exact .none
    · exact .none
  | some ses =>
    split
    · rename_i same
      subst same
      exact .some (h ses found)
    · exact .some (.refl ses)

theorem apart (n : Node) (s : SessionId) {f : Session → Session}
    (h : ∀ ses, (f ses).vitals = ses.vitals ∧ (f ses).commands = ses.commands) :
    Steady n (n.modify s f) :=
  modify n s fun ses _ => ⟨(h ses).1, fun order => (h ses).2 ▸ order⟩

theorem outside (sessions : n'.sessions = n.sessions) (directory : n'.directory = n.directory) :
    Steady n n' := by
  refine ⟨directory, fun s => ?_⟩
  unfold session?
  rw [sessions]
  exact (refl n).sessions s

end Steady

/-! ## Steady changes -/

theorem steady_talks {n n' : Node} {s : SessionId} (talks : n.Talks s n') : Steady n n' := by
  cases talks with
  | intro talks => exact .modify _ s fun ses found => (talks ses found).steady

theorem steady_answer (n : Node) (s : SessionId) (job : Job)
    (result : Except SessionError Bytes) : Steady n (n.answer s job result) := by
  rw [answer_eq]
  refine .modify n s fun ses _ => ?_
  have unmarked : ses.Steady
      { ses with transactions := ses.transactions.unmark job.message.channel job.message.tx } :=
    ⟨rfl, fun order => order⟩
  exact unmarked.trans (Session.talks_reply ..).steady

theorem steady_deliver (n : Node) (origin : Origin) (result : Except SessionError Message) :
    Steady n (n.deliver origin result) := by
  cases origin with
  | caller label => exact .outside rfl rfl
  | request s c m =>
    unfold deliver
    exact steady_answer ..

theorem steady_forget (n : Node) (call : Call) : Steady n (n.forget call) := .outside rfl rfl

theorem steady_released (n : Node) (call : Call) (ctx : Context) (f : Context → Context) :
    Steady n (n.released call ctx f) := by
  refine Steady.trans ?_ (steady_forget _ call)
  exact .apart n call.session fun _ => ⟨rfl, rfl⟩

theorem steady_finish? {n n' : Node} {call : Call} (finished : n.finish? call = some n') :
    Steady n n' := by
  obtain ⟨ctx, m, _, _, rfl⟩ := finish?_cases finished
  exact (steady_released ..).trans (steady_deliver ..)

theorem steady_expire (n : Node) (call : Call) : Steady n (n.expire call) := by
  rcases n.expire_cases call with ⟨_, expired⟩ | ⟨ctx, _, expired⟩
  · rw [expired]
    exact steady_forget n call
  · rw [expired]
    exact (steady_released ..).trans (steady_deliver ..)

theorem steady_began (n : Node) (s : SessionId) (ses : Session) (c : Context) (m : Message)
    (origin : Origin) : Steady n (n.began s ses c m origin) := by
  have queued : Steady n (n.modify s fun ses =>
      { ses with
        transactions := ses.transactions.enroll c
        commands := ses.commands ++ [.next { message := m, forward := true }] }) :=
    .modify n s fun _ _ => ⟨rfl, List.mem_append_left _⟩
  exact queued.trans (.outside rfl rfl)

theorem steady_beginCall {n n' : Node} {t : SessionId} {i : Invocation} {origin : Origin}
    {r : Except SessionError Unit} (begun : n.beginCall t i origin = (r, n')) : Steady n n' := by
  rcases beginCall_cases begun with ⟨e, _, same⟩ | ⟨m, c, _, comes⟩
  · rw [same]
    exact .refl n
  · cases comes with
    | missing | duplicate => exact .refl _
    | stopped => exact .apart n t fun _ => ⟨rfl, rfl⟩
    | waits found => exact steady_began ..

/-! ## Proper nodes -/

/-- Sessions are proper, and the directory lists registered ones that have not ended. -/
structure Proper (n : Node) : Prop where
  sessions : ∀ s ses, n.session? s = some ses → ses.Proper
  directory : ∀ k s, n.directory.get? k = some s →
    ∃ ses, n.session? s = some ses ∧ ses.Serves k

namespace Proper

variable {n n' : Node}

theorem steady (h : n.Proper) (steady : Steady n n') : n'.Proper where
  sessions s ses' found' := by
    obtain ⟨ses, found, same⟩ := steady.back found'
    exact same.proper (h.sessions s ses found)
  directory k s entry := by
    rw [steady.directory] at entry
    obtain ⟨ses, found, serves⟩ := h.directory k s entry
    obtain ⟨ses', found', same⟩ := steady.forth found
    exact ⟨ses', found', same.serves serves⟩

/-- A session may change if it goes on to serve what it serves. -/
theorem modify (h : n.Proper) {s : SessionId} {ses : Session} (found : n.session? s = some ses)
    {f : Session → Session} (proper : (f ses).Proper)
    (serves : ∀ k, ses.Serves k → (f ses).Serves k) : (n.modify s f).Proper where
  sessions t ses' found' := by
    rcases session?_modify_cases found' with ⟨rfl, ses₁, there, rfl⟩ | ⟨_, found'⟩
    · cases Option.some.inj (found.symm.trans there)
      exact proper
    · exact h.sessions t ses' found'
  directory k t entry := by
    obtain ⟨ses', found', serves'⟩ := h.directory k t entry
    rw [session?_modify_if]
    split
    · rename_i same
      subst same
      cases Option.some.inj (found.symm.trans found')
      exact ⟨f ses, by rw [found]; rfl, serves k serves'⟩
    · exact ⟨ses', found', serves'⟩

/-- A session under which nothing is listed may change as it likes. -/
theorem unlisted (h : n.Proper) {s : SessionId} (free : ∀ k, n.directory.get? k ≠ some s)
    {f : Session → Session} (proper : ∀ ses, n.session? s = some ses → (f ses).Proper) :
    (n.modify s f).Proper where
  sessions t ses found := by
    rcases session?_modify_cases found with ⟨rfl, ses', found', rfl⟩ | ⟨_, found⟩
    · exact proper ses' found'
    · exact h.sessions t ses found
  directory k t entry := by
    obtain ⟨ses, found, serves⟩ := h.directory k t entry
    refine ⟨ses, ?_, serves⟩
    rw [session?_modify_if, if_neg, found]
    rintro rfl
    exact free k entry

theorem fewer (h : n.Proper) {d : Directory}
    (less : ∀ k s, d.get? k = some s → n.directory.get? k = some s) :
    { n with directory := d }.Proper where
  sessions := h.sessions
  directory k s entry := h.directory k s (less k s entry)

theorem serves (h : n.Proper) {s : SessionId} {ses : Session} (found : n.session? s = some ses)
    {k : String} (entry : n.directory.get? k = some s) : ses.Serves k := by
  obtain ⟨ses', found', serves⟩ := h.directory k s entry
  cases Option.some.inj (found.symm.trans found')
  exact serves

theorem absent (h : n.Proper) {s : SessionId} {ses : Session} (found : n.session? s = some ses)
    (off : ses.isRegistered = false) (k : String) : n.directory.get? k ≠ some s := by
  intro entry
  have on := (h.serves found entry).registered
  rw [off] at on
  cases on

theorem ended (h : n.Proper) {s : SessionId} {ses : Session} (found : n.session? s = some ses)
    (ended : ses.phase = .ended) (k : String) : n.directory.get? k ≠ some s :=
  fun entry => (h.serves found entry).live ended

end Proper

theorem get?_deregister_some {d : Directory} {key k : String} {s : SessionId}
    (h : (d.deregister key).get? k = some s) : key ≠ k ∧ d.get? k = some s := by
  rw [Directory.get?_deregister] at h
  split at h
  · cases h
  · exact ⟨‹_›, h⟩

/-- Once a session has given its key up, it is not listed. -/
theorem proper_deregister {n : Node} (h : n.Proper) (s : SessionId) :
    (n.deregister s).Proper ∧ ∀ k, (n.deregister s).directory.get? k ≠ some s := by
  unfold deregister
  cases found : n.session? s with
  | none =>
    refine ⟨h, fun k entry => ?_⟩
    obtain ⟨ses, found', _⟩ := h.directory k s entry
    rw [found] at found'
    cases found'
  | some ses =>
    simp only
    cases registered : ses.isRegistered with
    | false => exact ⟨h, h.absent found registered⟩
    | true =>
      have left (ses : Session) (proper : ses.Proper) :
          { ses with isRegistered := false }.Proper :=
        ⟨proper.loops, fun _ => rfl⟩
      simp only [if_true]
      cases place : ses.place with
      | none =>
        have free (k : String) : n.directory.get? k ≠ some s := by
          intro entry
          obtain ⟨i, known, _⟩ := (h.serves found entry).place
          rw [place] at known
          cases known
        exact ⟨h.unlisted free fun ses' found' => left ses' (h.sessions s ses' found'), free⟩
      | some i =>
        have free (k : String) : (n.directory.deregister i.key).get? k ≠ some s := by
          intro entry
          obtain ⟨other, entry⟩ := get?_deregister_some entry
          obtain ⟨i', known, same⟩ := (h.serves found entry).place
          rw [place] at known
          cases known
          exact other same
        have fewer : { n with directory := n.directory.deregister i.key }.Proper :=
          h.fewer fun k s entry => (get?_deregister_some entry).2
        exact ⟨fewer.unlisted free fun ses' found' => left ses' (h.sessions s ses' found'), free⟩

/-! ## The end of a session -/

theorem steady_farewelled (n : Node) (s : SessionId) : Steady n (n.farewelled s) :=
  .modify n s fun ses _ => (ses.steady_notify _).trans ⟨rfl, fun order => order⟩

theorem proper_closed {n : Node} (h : n.Proper) {s : SessionId} {ses : Session}
    (found : n.session? s = some ses) (on : ses.outbound ≠ .idle) : (n.closed s).Proper := by
  obtain ⟨proper, free⟩ := proper_deregister h s
  refine proper.unlisted free fun ses' found' => ?_
  rw [session?_deregister found] at found'
  cases found'
  exact ⟨fun _ => on, fun created => Phase.noConfusion created⟩

/-- A session whose loops were started once may end. -/
theorem proper_endSession {n : Node} (h : n.Proper) {s : SessionId} {ses : Session}
    (found : n.session? s = some ses) (on : ses.outbound ≠ .idle) : (n.endSession s).Proper := by
  rw [endSession_eq found]
  split
  · exact proper_closed h found on
  · have steady := n.steady_farewelled s
    obtain ⟨ses', found', same⟩ := steady.forth found
    exact proper_closed (h.steady steady) found' (same.outbound ▸ on)

theorem session?_closed {n : Node} {s : SessionId} {ses : Session}
    (found : n.session? s = some ses) : (n.closed s).session? s =
      some { ses with isRegistered := false, phase := .ended }.stop :=
  session?_modify (session?_deregister found)

theorem session?_endSession {n : Node} {s : SessionId} {ses : Session}
    (found : n.session? s = some ses) :
    ∃ ses', (n.endSession s).session? s = some ses' ∧ ses'.phase = .ended := by
  rw [endSession_eq found]
  split
  · exact ⟨_, session?_closed found, rfl⟩
  · obtain ⟨ses', found', _⟩ := (n.steady_farewelled s).forth found
    exact ⟨_, session?_closed found', rfl⟩

theorem proper_stopOutbound {n : Node} (h : n.Proper) {s : SessionId} {ses : Session}
    (found : n.session? s = some ses) (running : ses.outbound = .running) :
    (n.stopOutbound s).Proper := by
  have proper := proper_endSession h found (running ▸ Loop.noConfusion)
  obtain ⟨ses', found', ended⟩ := session?_endSession found
  refine proper.unlisted (proper.ended found' ended) fun ses'' found'' => ?_
  cases Option.some.inj (found'.symm.trans found'')
  exact ⟨fun _ => Loop.noConfusion, (proper.sessions s ses' found').unregistered⟩

theorem proper_stopInbound {n : Node} (h : n.Proper) {s : SessionId} {ses : Session}
    (found : n.session? s = some ses) (running : ses.inbound = .running) :
    (n.stopInbound s).Proper := by
  obtain ⟨loops, unregistered⟩ := h.sessions s ses found
  have on : ses.outbound ≠ .idle := loops (running ▸ Loop.noConfusion)
  have halted : (n.modify s fun ses => { ses with inbound := .stopped }).Proper :=
    h.modify found ⟨fun _ => on, unregistered⟩
      fun k serves => ⟨serves.registered, serves.live, serves.place⟩
  exact proper_endSession halted (session?_modify found) on

/-! ## Deeds -/

/-- What deeds do to the vitals of sessions. -/
inductive Shift : Node → Node → Prop
  | register {n n' : Node} {s : SessionId} {ses : Session} {m : Message}
      (found : n.session? s = some ses) (created : ses.phase = .created)
      (registered : n.register s m = (.ok (), n')) :
      Shift n ((n'.modify s Session.announce).setPhase s .established)
  | refuse {n n' : Node} {s : SessionId} {ses : Session} {m : Message} {e : SessionError}
      (found : n.session? s = some ses) (created : ses.phase = .created)
      (refused : n.register s m = (.error e, n')) : Shift n (n'.setPhase s .created)
  | deregister {n : Node} (s : SessionId) : Shift n (n.deregister s)
  | getReady {n : Node} {s : SessionId} {ses : Session} (m : Message)
      (found : n.session? s = some ses) (established : ses.phase = .established) :
      Shift n ((n.modify s (·.notify m)).setPhase s .ready)
  | stopInbound {n : Node} {s : SessionId} {ses : Session} (found : n.session? s = some ses)
      (running : ses.inbound = .running) : Shift n (n.stopInbound s)
  | stopOutbound {n : Node} {s : SessionId} {ses : Session} (found : n.session? s = some ses)
      (running : ses.outbound = .running) (rest : List Instruction) :
      Shift n ((n.modify s fun ses => { ses with commands := rest }).stopOutbound s)

theorem steady_or_shift {n n' : Node} (deed : Deed n n') : Steady n n' ∨ Shift n n' := by
  cases deed with
  | chore done =>
    cases done with
    | receive | send | submit | spawn | pickUp | take | free =>
      exact .inl (.apart _ _ fun _ => ⟨rfl, rfl⟩)
    | enqueue c found on => exact .inl (.modify _ _ fun _ _ => ⟨rfl, List.mem_append_left _⟩)
    | @dequeue s ses c rest found running queued =>
      refine .inl (.modify _ _ fun ses' found' => ⟨rfl, fun order => ?_⟩)
      cases Option.some.inj (found.symm.trans found')
      rw [queued] at order
      exact (List.mem_cons.1 order).resolve_left Instruction.noConfusion
    | register found created registered => exact .inr (.register found created registered)
    | refuse found created refused => exact .inr (.refuse found created refused)
    | deregister s => exact .inr (.deregister s)
    | write | tick => exact .inl (.outside rfl rfl)
  | notify s m => exact .inl (.modify n s fun ses _ => ses.steady_notify m)
  | getReady m found established => exact .inr (.getReady m found established)
  | stopInbound found running => exact .inr (.stopInbound found running)
  | @stopOutbound s ses found running =>
    have same : (n.modify s fun ses' => { ses' with commands := ses.commands }) = n := by
      refine modify_self fun ses' found' => ?_
      cases Option.some.inj (found.symm.trans found')
      rfl
    have stops := Shift.stopOutbound found running ses.commands
    rw [same] at stops
    exact .inr stops
  | shutdown found running queued => exact .inr (.stopOutbound found running _)
  | @openCursor s ses channel tx c ctx scan =>
    have kept : Steady n (n.modifyCursors s c
        (ctx.cursors.openCursor ses.config.maxBatch (cursorId n.cursorCount) scan).2) :=
      .apart n s fun _ => ⟨rfl, rfl⟩
    exact .inl (kept.trans (.outside rfl rfl))
  | advance | closeCursor | bury | park | unpark =>
    exact .inl (.apart n _ fun _ => ⟨rfl, rfl⟩)
  | @call _ s t ses ctx c m spec rights found free registered known righted resolved begun =>
    have claimed : Steady n (n.modify s (·.claim m.key)) := .apart n s fun _ => ⟨rfl, rfl⟩
    exact .inl (claimed.trans (steady_beginCall begun))
  | finish waits finished => exact .inl (steady_finish? finished)
  | expire waits => exact .inl (steady_expire ..)

theorem get?_register_cases {d d' : Directory} {key k : String} {s t : SessionId}
    (free : d.register key s = .ok d') (entry : d'.get? k = some t) :
    key = k ∧ s = t ∨ d.get? k = some t := by
  rw [Directory.get?_register free] at entry
  split at entry
  · cases entry
    exact .inl ⟨‹_›, rfl⟩
  · exact .inr entry

/-- A session that is past `created` may be listed. -/
theorem proper_listed {n : Node} (h : n.Proper) {s : SessionId} {ses : Session}
    (found : n.session? s = some ses) (established : ses.phase = .established)
    (off : ∀ k, n.directory.get? k ≠ some s) {id : ContractId} {d : Directory}
    (free : n.directory.register (ContractInstance.ofName id.name).key s = .ok d) :
    (n.listed s id d).Proper := by
  have proper := h.sessions s ses found
  have changed := h.unlisted off (f := fun ses =>
    { ses with
      isRegistered := true, identity := some id
      place := some (ContractInstance.ofName id.name) }) fun ses' found' => by
    cases Option.some.inj (found.symm.trans found')
    refine ⟨proper.loops, fun created => ?_⟩
    change ses.phase = .created at created
    rw [established] at created
    cases created
  refine ⟨changed.sessions, fun k t entry => ?_⟩
  rcases get?_register_cases free entry with ⟨rfl, rfl⟩ | entry
  · refine ⟨_, session?_modify found, rfl, ?_, _, rfl, rfl⟩
    show ses.phase ≠ .ended
    rw [established]
    exact Phase.noConfusion
  · exact changed.directory k t entry

theorem announce_phase (ses : Session) (phase : Phase) :
    { ses with phase }.announce = { ses.announce with phase } := by
  obtain ⟨_, _, _, _, _, _, _, _, _, _, outbound, _, waiter, _, _⟩ := ses
  cases waiter with
  | some w => rfl
  | none =>
    cases outbound
    all_goals rfl

theorem setPhase_announce (n : Node) (s : SessionId) (phase : Phase) :
    (n.modify s Session.announce).setPhase s phase =
      (n.setPhase s phase).modify s Session.announce :=
  modify_comm n s s fun ses => announce_phase ses phase

theorem proper_register {n n' : Node} (h : n.Proper) {s : SessionId} {ses : Session} {m : Message}
    (found : n.session? s = some ses) (created : ses.phase = .created)
    (registered : n.register s m = (.ok (), n')) :
    ((n'.modify s Session.announce).setPhase s .established).Proper := by
  have proper := h.sessions s ses found
  have off := h.absent found (proper.unregistered created)
  have registering := registering_register n s m
  rw [registered] at registering
  change Registering n s m (.ok ()) n' at registering
  cases registering with
  | @told _ id d link free sent =>
    subst sent
    have established : (n.setPhase s .established).Proper :=
      h.unlisted off fun ses' found' => by
        cases Option.some.inj (found.symm.trans found')
        exact ⟨proper.loops, fun created => Phase.noConfusion created⟩
    have found' : (n.setPhase s .established).session? s = some _ := session?_modify found
    have listed := proper_listed established found' rfl off free
    -- The lifecycle might as well go on first.
    have first : ((n.listed s id d).modify s fun ses => { ses with link }).setPhase s .established =
        ((n.setPhase s .established).listed s id d).modify s fun ses => { ses with link } := by
      have before : (n.listed s id d).setPhase s .established =
          (n.setPhase s .established).listed s id d :=
        modify_comm { n with directory := d } s s fun _ => rfl
      rw [← before]
      exact modify_comm (n.listed s id d) s s fun _ => rfl
    have linked := listed.steady (Steady.apart _ s (f := fun ses => { ses with link })
      fun _ => ⟨rfl, rfl⟩)
    have announced := linked.steady (Steady.modify _ s (f := Session.announce)
      fun ses _ => ses.talks_announce.steady)
    rw [← first, ← setPhase_announce] at announced
    exact announced

theorem proper_refuse {n n' : Node} (h : n.Proper) {s : SessionId} {ses : Session} {m : Message}
    {e : SessionError} (found : n.session? s = some ses) (created : ses.phase = .created)
    (refused : n.register s m = (.error e, n')) : (n'.setPhase s .created).Proper := by
  have proper := h.sessions s ses found
  have off := h.absent found (proper.unregistered created)
  have registering := registering_register n s m
  rw [refused] at registering
  change Registering n s m (.error e) n' at registering
  cases registering with
  | refused e =>
    rw [phase_found found created]
    exact h
  | @unsent _ id d e free given =>
    have listed : (n.listed s id d).session? s = some _ := session?_modify
      (n := { n with directory := d }) found
    have whole : n' = { n.modify s fun ses =>
        { ses with
          isRegistered := false, identity := some id
          place := some (ContractInstance.ofName id.name) } with
        directory := d.deregister (ContractInstance.ofName id.name).key } := by
      simp only [given, deregister, listed, if_true]
      unfold Node.listed
      rw [modify_modify]
      rfl
    have changed : n'.Proper := by
      rw [whole]
      refine (h.unlisted off fun ses' found' => ?_).fewer fun k t entry => ?_
      · exact ⟨(h.sessions s ses' found').loops, fun _ => rfl⟩
      · obtain ⟨other, entry⟩ := get?_deregister_some entry
        rcases get?_register_cases free entry with ⟨same, _⟩ | entry
        · exact absurd same other
        · exact entry
    obtain ⟨ses', found', same⟩ : ∃ ses', n'.session? s = some ses' ∧ ses'.phase = .created := by
      rw [given]
      exact ⟨_, session?_deregister listed, created⟩
    rw [phase_found found' same]
    exact changed

theorem proper_shift {n n' : Node} (h : n.Proper) (shift : Shift n n') : n'.Proper := by
  cases shift with
  | register found created registered => exact proper_register h found created registered
  | refuse found created refused => exact proper_refuse h found created refused
  | deregister s => exact (proper_deregister h s).1
  | @getReady s ses m found established =>
    have told := h.steady (Steady.modify n s fun ses _ => ses.steady_notify m)
    have found' := session?_modify (f := (·.notify m)) found
    have proper := told.sessions s _ found'
    exact told.modify found'
      ⟨proper.loops, fun created => Phase.noConfusion created⟩
      fun k serves => ⟨serves.registered, Phase.noConfusion, serves.place⟩
  | stopInbound found running => exact proper_stopInbound h found running
  | @stopOutbound s ses found running rest =>
    have proper := h.sessions s ses found
    have took : (n.modify s fun ses => { ses with commands := rest }).Proper :=
      h.modify found ⟨proper.loops, proper.unregistered⟩
        fun k serves => ⟨serves.registered, serves.live, serves.place⟩
    exact proper_stopOutbound took (session?_modify found) running

theorem proper_deed {n n' : Node} (h : n.Proper) (deed : Deed n n') : n'.Proper := by
  rcases steady_or_shift deed with steady | shift
  · exact h.steady steady
  · exact proper_shift h shift

end Node

end ContractNode
