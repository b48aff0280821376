import ContractNode.Proofs.Handling

/-!
# Turns as paths

* `stretch_handle` : a message that is shown to a lifecycle;
* `stretch_receive?`, `stretch_command?`, `work?_cases`, `stretch_dial?`, `stretch_resume?` : turns
  of the loops, of the workers and of the threads that calls run on;
* `path_turn?`, `path_settle`, `path_pass` : any turn, coming to rest, and a span of time.
-/

namespace ContractNode

namespace Node

variable {new : SessionId → Job → Prop}

/-! ## Lifecycles -/

/-- Showing a message to a lifecycle that accepts it as a request queues that. -/
theorem stretch_handle {n : Node} {s : SessionId} {m : Message}
    (allowed : ∀ job, job.message = m → n.Accepts s job → new s job) :
    Stretch new n (n.handle s m) := by
  have handled := handled_handle n s m
  generalize n.handle s m = n' at handled
  cases handled with
  | missing | ignored => exact .refl n
  | passes => exact ⟨.single (.notify s m), .apart n s fun ses => ses.errands_notify m⟩
  | @registers ses n' found created registered =>
    have leaves : Leaves new n (n.register s m).2 := leaves_register n s m
    rw [registered] at leaves
    have announced : Leaves new n' (n'.modify s Session.announce) :=
      .apart n' s fun ses => ses.talks_announce.errands
    exact ⟨(Chore.register found created registered).path,
      (leaves.trans announced).trans (leaves_setPhase ..)⟩
  | @refused ses n' e found created refused =>
    have leaves : Leaves new n (n.register s m).2 := leaves_register n s m
    rw [refused] at leaves
    exact ⟨(Chore.refuse found created refused).path, leaves.trans (leaves_setPhase ..)⟩
  | readies found established =>
    have notified : Leaves new n (n.modify s (·.notify m)) :=
      .apart n s fun ses => ses.errands_notify m
    exact ⟨.single (.getReady m found established), notified.trans (leaves_setPhase ..)⟩
  | calls found ready asks =>
    have asked := (Message.job?_eq_some_iff.1 asks).1
    exact (course_spawn (allowed _ rfl ⟨⟨_, found, ready⟩, asked⟩) found ready).toStretch
  | submits found ready asks =>
    have asked := (Message.job?_eq_some_iff.1 asks).1
    exact (course_submit (allowed _ rfl ⟨⟨_, found, ready⟩, asked⟩) found ready).toStretch

theorem path_handle (n : Node) (s : SessionId) (m : Message) : Path n (n.handle s m) :=
  (stretch_handle fun _ _ _ => trivial : Stretch (fun _ _ => True) n (n.handle s m)).path

/-! ## Turns -/

section Loops

variable {n n' : Node} {s : SessionId} {ses : Session}

/-- Showing a message to a lifecycle neither starts nor stops a loop. -/
theorem loops_handle (m : Message) (found : n.session? s = some ses) :
    ∃ ses', (n.handle s m).session? s = some ses' ∧ ses'.inbound = ses.inbound ∧
      ses'.outbound = ses.outbound := by
  obtain ⟨ses', found', same⟩ := (adds_handle n s m).session found
  exact ⟨ses', found', congrArg (·.1) same, congrArg (·.2.1) same⟩

theorem accepts_modify {f : Session → Session} {job : Job} (h : (n.modify s f).Accepts s job)
    (phase : ∀ ses, (f ses).phase = ses.phase) : n.Accepts s job := by
  obtain ⟨⟨ses', found', ready⟩, asked⟩ := h
  rw [session?_modify_if, if_pos rfl] at found'
  obtain ⟨ses, found, rfl⟩ := Option.map_eq_some_iff.1 found'
  exact ⟨⟨ses, found, (phase ses).symm.trans ready⟩, asked⟩

theorem stretch_arrive {m : Message} (allowed : ∀ job, job.message = m → n.Accepts s job → new s job)
    (found : n.session? s = some ses) (running : ses.inbound = .running) :
    Stretch new n (n.arrive s m) := by
  have handled := stretch_handle allowed
  unfold arrive
  split
  · exact .refl n
  · simp only
    split
    · obtain ⟨ses', found', same, _⟩ := loops_handle m found
      exact handled.trans
        ⟨.single (.stopInbound found' (same.trans running)), leaves_stopInbound ..⟩
    · exact handled

/-- The inbound loop queues the request that it receives, if the lifecycle accepts it. -/
theorem stretch_receive? (h : n.receive? s = some n') (found : n.session? s = some ses)
    (allowed : ∀ job inbox, ses.inbound = .running →
      ses.link.inbox.receive = (.item (.ok job.message), inbox) → n.Accepts s job → new s job) :
    Stretch new n n' := by
  unfold receive? at h
  simp only [found] at h
  split at h
  · rename_i running
    split at h
    · cases h
    · cases h
      exact ⟨.single (.stopInbound found running), leaves_stopInbound ..⟩
    all_goals
      rename_i inbox taken
      cases h
      have took : Stretch new n (n.modify s (·.withInbox inbox)) :=
        ⟨(Chore.receive found running taken).path, .apart n s fun _ => rfl⟩
      have found' := session?_modify (f := (·.withInbox inbox)) found
    · exact took.trans ⟨.single (.stopInbound found' running), leaves_stopInbound ..⟩
    · refine took.trans (stretch_arrive (fun job same accepts => ?_) found' running)
      subst same
      exact allowed job inbox running taken (accepts_modify accepts fun _ => rfl)
  · cases h

theorem stretch_carryOut {c : Command}
    (allowed : ∀ job, job.message = c.message → n.Accepts s job → new s job)
    (found : n.session? s = some ses) (running : ses.outbound = .running) :
    Stretch new n (n.carryOut s c) := by
  have handled := stretch_handle allowed
  obtain ⟨ses', found', _, same⟩ := loops_handle c.message found
  unfold carryOut
  split
  · split
    · simp only
      rcases sendNow_cases (n.handle s c.message) s c.message with sent | ⟨_, _, there, linked, sent⟩
      · rw [sent]
        exact handled.trans
          ⟨.single (.stopOutbound found' (same.trans running)), leaves_stopOutbound ..⟩
      · rw [sent]
        have sends : Course new _ _ := .modify (.send there linked) (fun _ => rfl) fun _ => rfl
        exact handled.trans sends.toStretch
    · exact handled.trans (course_sendAnyway ..).toStretch
  · exact handled

/-- The outbound loop queues the request that it is to show, if the lifecycle accepts it. -/
theorem stretch_command? (h : n.command? s = some n') (found : n.session? s = some ses)
    (allowed : ∀ job c rest, ses.outbound = .running → ses.commands = .next c :: rest →
      job.message = c.message → n.Accepts s job → new s job) : Stretch new n n' := by
  unfold command? at h
  simp only [found] at h
  split at h
  · rename_i running
    split at h
    · cases h
    · rename_i rest queued
      cases h
      have took : Leaves new n (n.modify s fun ses => { ses with commands := rest }) :=
        .apart n s fun _ => rfl
      exact ⟨.single (.shutdown found running queued), took.trans (leaves_stopOutbound ..)⟩
    · rename_i c rest queued
      cases h
      have took : Stretch new n (n.modify s fun ses => { ses with commands := rest }) :=
        ⟨(Chore.dequeue found running queued).path, .apart n s fun _ => rfl⟩
      have found' := session?_modify (f := fun ses => { ses with commands := rest }) found
      refine took.trans (stretch_carryOut (fun job same accepts => ?_) found' running)
      exact allowed job c rest running queued same (accepts_modify accepts fun _ => rfl)
  · cases h

/-- The node after a worker has taken a request, which changed the session, and is done with it. -/
def worked (n : Node) (s : SessionId) (job : Job) (pool : WorkerPool Job)
    (f : Session → Session) : Node :=
  ((n.modify s fun ses => { ses with pool }).modify s f).modify s fun ses =>
    { ses with pool := ses.pool.finish job }

/-- The node after a worker has served a request that wrote the ledger. -/
def storedNode (n : Node) (s : SessionId) (job : Job) (pool : WorkerPool Job) (l : Ledger) : Node :=
  { n with ledger := l }.worked s job pool (·.reply job.kind (reply job.message (.ok [])))

theorem stretch_take {t : Task Job} {pool : WorkerPool Job} (found : n.session? s = some ses)
    (taken : ses.pool.take = some (t, pool)) :
    Stretch new n (n.modify s fun ses => { ses with pool }) := by
  refine ⟨(Chore.take found taken).path, .modify n s fun ses' found' job =>
    Or.imp_left fun queued => ?_⟩
  cases Option.some.inj (found.symm.trans found')
  cases t with
  | job a =>
    rw [(WorkerPool.take_eq_some_job taken).1]
    exact List.mem_cons_of_mem _ queued
  | stop =>
    rw [(WorkerPool.take_eq_some_stop taken).1]
    exact List.mem_cons_of_mem _ queued

theorem stretch_finish (n : Node) (s : SessionId) (job : Job) :
    Stretch new n (n.modify s fun ses => { ses with pool := ses.pool.finish job }) := by
  refine ⟨(Chore.free s job).path, .modify n s fun ses _ _ => Or.imp_left fun queued => ?_⟩
  rwa [WorkerPool.queue_finish] at queued

theorem stretch_park {p : ParkedRead} (found : n.session? s = some ses)
    (free : p.job.message.key ∉ ses.transactions.markers)
    (registered : ses.transactions.find? p.job.message.channel p.job.message.tx = some p.context)
    {ctx : Context} (known : ses.transactions.context? p.context = some ctx)
    (right : ctx.simulator = some p.simulator) :
    Stretch new n ((n.modify s (·.claim p.job.message.key)).modify s fun ses =>
      { ses with parked := ses.parked ++ [p] }) := by
  rw [modify_modify]
  exact ⟨.single (.park found free registered known right), .apart n s fun _ => rfl⟩

theorem path_stored {job : Job} {pool : WorkerPool Job} (found : n.session? s = some ses)
    (taken : ses.pool.take = some (.job job, pool)) (l : Ledger) :
    Path n (n.storedNode s job pool l) := by
  have took : Stretch (fun _ _ => True) n (n.modify s fun ses => { ses with pool }) :=
    stretch_take found taken
  have wrote := took.path.tail (.chore (.write l))
  have replied : Course (fun _ _ => True) ({ n with ledger := l }.modify s fun ses =>
      { ses with pool }) _ := course_reply _ s job.kind (reply job.message (.ok []))
  exact (wrote.trans replied.path).tail (.chore (.free s job))

/-- A turn of a worker leaves the ledger alone, or serves a request that writes it. -/
theorem work?_cases (h : n.work? s = some n') : Stretch new n n' ∨
    ∃ ses job pool ctx sim space w l, n.session? s = some ses ∧
      ses.pool.take = some (.job job, pool) ∧ n.Stores ses job ctx sim space w l ∧
        n' = n.storedNode s job pool l := by
  unfold work? at h
  split at h
  · cases h
  · rename_i ses found
    split at h
    · cases h
    · rename_i pool taken
      cases h
      exact .inl (stretch_take found taken)
    · rename_i job pool taken
      have took : Stretch new n (n.modify s fun ses => { ses with pool }) :=
        stretch_take found taken
      have found' := session?_modify (f := fun ses => { ses with pool }) found
      have served := served_serve (n.modify s fun ses => { ses with pool }) s job
      cases Option.some.inj h
      generalize (n.modify s fun ses => { ses with pool }).serve s job = r at served ⊢
      obtain ⟨p, n₁⟩ := r
      cases served with
      | done course => exact .inl ((took.trans (course new).toStretch).trans (stretch_finish ..))
      | @stored ses' ctx sim space w l there stores =>
        cases Option.some.inj (found'.symm.trans there)
        refine .inr ⟨ses, job, pool, ctx, sim, space, w, l, found, taken, ?_, rfl⟩
        obtain ⟨free, read, registered, right, place, written⟩ := stores
        exact ⟨free, read, registered, right, place, written⟩
      | parked there read itself free registered known right =>
        subst itself
        exact .inl (took.trans (stretch_park there free registered known right))

/-- A read that goes on frees its worker and its marker, and is answered. -/
theorem resume_eq (n : Node) (s : SessionId) (p : ParkedRead) : n.resume s p =
    (n.modify s fun ses =>
      { ses with
        parked := ses.parked.erase p, pool := ses.pool.finish p.job
        transactions :=
          ses.transactions.unmark p.job.message.channel p.job.message.tx }).modify s
      (·.reply p.job.kind (reply p.job.message (n.read p.simulator p.space p.ref))) := by
  unfold resume answer
  rw [modify_modify, modify_modify]
  rfl

theorem stretch_dial? (h : n.dial? s = some n') : Stretch new n n' := by
  unfold dial? at h
  split at h
  · cases h
  · obtain ⟨m, _, rfl⟩ := Option.map_eq_some_iff.1 h
    exact (course_dial ..).toStretch

theorem stretch_resume? (h : n.resume? s = some n') : Stretch new n n' := by
  unfold resume? at h
  split at h
  · cases h
  · rename_i ses found
    obtain ⟨p, free, rfl⟩ := Option.map_eq_some_iff.1 h
    have gone := Deed.unpark found (List.mem_of_find?_eq_some free)
    have finished : Leaves new n (n.modify s fun ses =>
        { ses with
          parked := ses.parked.erase p, pool := ses.pool.finish p.job
          transactions :=
            ses.transactions.unmark p.job.message.channel p.job.message.tx }) :=
      .modify n s fun ses _ job => Or.imp_left fun queued => by
        rwa [WorkerPool.queue_finish] at queued
    rw [resume_eq]
    exact Stretch.trans ⟨.single gone, finished⟩ (course_reply ..).toStretch

/-! ## Turns as paths -/

theorem session?_of_turn {took : Node → SessionId → Option Node} (h : took n s = some n')
    (none : n.session? s = none → took n s = .none) : ∃ ses, n.session? s = some ses := by
  cases found : n.session? s with
  | none =>
    rw [none found] at h
    cases h
  | some ses => exact ⟨ses, rfl⟩

theorem path_receive? (h : n.receive? s = some n') : Path n n' := by
  obtain ⟨ses, found⟩ := session?_of_turn h fun none => by simp [receive?, none]
  exact (stretch_receive? h found fun _ _ _ _ _ => trivial : Stretch (fun _ _ => True) n n').path

theorem path_command? (h : n.command? s = some n') : Path n n' := by
  obtain ⟨ses, found⟩ := session?_of_turn h fun none => by simp [command?, none]
  exact (stretch_command? h found fun _ _ _ _ _ _ _ => trivial :
    Stretch (fun _ _ => True) n n').path

theorem path_work? (h : n.work? s = some n') : Path n n' := by
  rcases work?_cases h with stretch | ⟨ses, job, pool, _, _, _, _, l, found, taken, _, rfl⟩
  · exact (stretch : Stretch (fun _ _ => True) n n').path
  · exact path_stored found taken l

end Loops

theorem path_turn? {n n' : Node} (h : n.turn? = some n') : Path n n' := by
  unfold turn? at h
  rcases eq_some_of_orElse h with h | h
  · obtain ⟨call, waits, h⟩ := List.exists_of_findSome?_eq_some h
    exact .single (.finish waits h)
  · obtain ⟨s, _, h⟩ := List.exists_of_findSome?_eq_some h
    unfold sessionTurn? at h
    rcases eq_some_of_orElse h with h | h
    · exact (stretch_dial? h : Stretch (fun _ _ => True) n n').path
    · rcases eq_some_of_orElse h with h | h
      · exact path_command? h
      · rcases eq_some_of_orElse h with h | h
        · exact path_work? h
        · rcases eq_some_of_orElse h with h | h
          · exact (stretch_resume? h : Stretch (fun _ _ => True) n n').path
          · exact path_receive? h

theorem path_turns (k : Nat) (n : Node) : Path n (turns k n) := by
  induction k generalizing n with
  | zero => exact .refl
  | succ k ih =>
    unfold turns
    split
    · exact .refl
    · rename_i n' next
      exact (path_turn? next).trans (ih n')

theorem path_settle (n : Node) : Path n n.settle := path_turns n.weight n

/-! ## Time -/

theorem path_lapse {n : Node} {t : Nat} {c : Call} (h : n.nextDue? = some (t, c)) :
    Path n (n.lapse t c) := by
  have later := (Chore.tick (n := n) (max n.clock t)).path
  have mem : c ∈ ({ n with clock := max n.clock t } : Node).calls := mem_calls_of_nextDue? h
  exact (later.tail (.expire mem)).trans (path_settle _)

theorem path_lapseWhile (goOn : Node → Nat → Bool) (k : Nat) (n : Node) :
    Path n (lapseWhile goOn k n) := by
  induction k generalizing n with
  | zero => exact .refl
  | succ k ih =>
    unfold lapseWhile
    split
    · exact .refl
    · rename_i t c next
      split
      · exact (path_lapse next).trans (ih _)
      · exact .refl

theorem path_pass (n : Node) (span : Nat) : Path n (n.pass span) :=
  (path_lapseWhile ..).tail (.chore (.tick _))

end Node

end ContractNode
