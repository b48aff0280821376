import ContractNode.Proofs.Notices

/-!
# Turns at a desk

A turn of a loop, of a worker or of a thread is a trail at the desk of its session, and so is the
end of an execution. At the other desks it orders a message at most.

* `trail_receive?`, `trail_command?`, `trail_work?`, `trail_dial`, `trail_resume?` : turns of loops,
  workers and threads;
* `Node.TakesUp` : a worker or a thread takes up a request;
* `trail_finish?`, `trail_expire` : executions that end.
-/

namespace ContractNode

theorem Pipe.eq_of_receive {α : Type} {p p' : Pipe α} {a : α} (h : p.receive = (.item a, p')) :
    ∃ rest, p.queue = a :: rest ∧ p' = { p with queue := rest } := by
  unfold receive at h
  split at h
  · rename_i b rest queued
    cases h
    exact ⟨rest, queued, rfl⟩
  · split at h
    · cases h
    · cases h

namespace Node

variable {n n' : Node} {s t : SessionId} {ses : Session}

/-! ## Turns of the inbound loop -/

theorem StaffedAt.steady (h : n.StaffedAt s) (steady : (n.desk s).Steady (n'.desk s)) :
    n'.StaffedAt s := by
  intro goesOn
  obtain ⟨goesOn, staffed⟩ := steady goesOn
  exact staffed (h goesOn)

/-- What has arrived is shown to the lifecycle, unless it only keeps the connection alive. -/
theorem trail_arrive (n : Node) (s : SessionId) (m : Message) (staffed : n.StaffedAt s) :
    ∃ es, Desk.Trail ((n.desk s).present m) es ((n.arrive s m).desk s) ∧ ∀ e ∈ es, e.Ensues := by
  unfold arrive
  split
  · rename_i keeps
    rw [Desk.present_none _ (by rw [Message.job?, keeps]; rfl)]
    exact ⟨[], .nil _, by simp⟩
  · obtain ⟨es, trail, ensues⟩ := trail_handle n s m staffed
    simp only
    split
    · rename_i ended
      obtain ⟨ses, found⟩ : ∃ ses, (n.handle s m).session? s = some ses := by
        cases found : (n.handle s m).session? s with
        | none => simp [found] at ended
        | some ses => exact ⟨ses, rfl⟩
      refine ⟨es ++ [.aside], trail.append (.single (Desk.step_shut (shut_stopInbound found))), ?_⟩
      intro e mem
      rcases List.mem_append.1 mem with mem | mem
      · exact ensues e mem
      · rw [List.mem_singleton.1 mem]
        trivial
    · exact ⟨es, trail, ensues⟩

theorem desk_withInbox {a : Except StreamError Message} {inbox : Pipe (Except StreamError Message)}
    (found : n.session? s = some ses) (taken : ses.link.inbox.receive = (.item a, inbox)) :
    n.desk s = { (n.modify s (·.withInbox inbox)).desk s with
      inbox := a.toOption.toList ++ ((n.modify s (·.withInbox inbox)).desk s).inbox } := by
  obtain ⟨rest, queued, rfl⟩ := Pipe.eq_of_receive taken
  rw [desk_modify found, desk_found found]
  simp only [Session.desk, Session.withInbox, Session.isOpen, queued]
  cases a with
  | error e => rfl
  | ok m => rfl

/-- A turn of the inbound loop: a message is received and shown to the lifecycle. -/
theorem trail_receive? (took : n.receive? s = some n') (staffed : n.StaffedAt s) :
    ∃ es, Desk.Trail (n.desk s) es (n'.desk s) ∧ ∀ e ∈ es, (∃ m, e = .received m) ∨ e.Ensues := by
  have stops {d : Desk} (shut : (n.desk s).Shut d) : ∃ es, Desk.Trail (n.desk s) es d ∧
      ∀ e ∈ es, (∃ m, e = .received m) ∨ e.Ensues :=
    ⟨[.aside], .single (Desk.step_shut shut), by simp [Minute.Ensues]⟩
  unfold receive? at took
  cases found : n.session? s with
  | none => simp [found] at took
  | some ses =>
    simp only [found] at took
    split at took
    · split at took
      · cases took
      · cases took
        exact stops (shut_stopInbound found)
      all_goals
        rename_i inbox taken
        cases took
        have desk := desk_withInbox found taken
        have found' := session?_modify (f := (·.withInbox inbox)) found
      · rw [desk] at stops ⊢
        exact stops (shut_stopInbound found')
      · rename_i m
        have staffed' : (n.modify s (·.withInbox inbox)).StaffedAt s :=
          staffed.steady (.of_eq (by rw [desk]) (by rw [desk]) (by rw [desk]) (by rw [desk]))
        obtain ⟨es, trail, ensues⟩ := trail_arrive _ s m staffed'
        have step : (n.desk s).Step (.received m)
            (((n.modify s (·.withInbox inbox)).desk s).present m) := by
          rw [desk]
          exact Desk.step_received rfl
        refine ⟨_, .cons step trail, fun e mem => ?_⟩
        rcases List.mem_cons.1 mem with rfl | mem
        · exact .inl ⟨m, rfl⟩
        · exact .inr (ensues e mem)
    · cases took

theorem desk_receive?_other (took : n.receive? s = some n') (other : s ≠ t) :
    n'.desk t = n.desk t := by
  unfold receive? at took
  split at took
  · cases took
  · split at took
    · split at took
      · cases took
      · cases took
        exact desk_stopInbound_other n other
      · cases took
        rw [desk_stopInbound_other _ other, desk_modify_other other]
      · rename_i m inbox taken
        cases took
        have handled := desk_handle_other (n.modify s (·.withInbox inbox)) m other
        rw [desk_modify_other other] at handled
        unfold arrive
        split
        · exact desk_modify_other other
        · simp only
          split
          · rw [desk_stopInbound_other _ other, handled]
          · exact handled
    · cases took

/-! ## Turns of the outbound loop -/

theorem comes_carryOut {c : Command} (found : n.session? s = some ses) :
    (((n.handle s c.message).desk s).forward c).Comes ((n.carryOut s c).desk s) := by
  obtain ⟨ses', found', _⟩ := loops_handle c.message found
  have shown := desk_found found'
  unfold carryOut Desk.forward
  cases forward : c.forward with
  | false =>
    simp only [Bool.false_eq_true, if_false, List.append_nil]
    exact .inl rfl
  | true =>
    simp only [if_true]
    split
    · rcases (n.handle s c.message).sendNow_cases s c.message with sent |
        ⟨ses₁, link, there, linked, sent⟩
      · rw [sent]
        exact .inr ((shut_stopOutbound found').of_eq rfl rfl rfl rfl rfl rfl)
      · cases Option.some.inj (found'.symm.trans there)
        rw [sent, shown, desk_modify found', Link.eq_of_send linked]
        exact .inl rfl
    · rw [shown, desk_modify found']
      exact ses'.comes_sendAnyway _ c.message

/-- A turn of the outbound loop: a command is shown to the lifecycle, and forwarded if it is to
be. -/
theorem trail_command? (took : n.command? s = some n') (sound : n.Sound)
    (staffed : n.StaffedAt s) : ∃ es, Desk.Trail (n.desk s) es (n'.desk s) ∧
      ∀ e ∈ es, (∃ c, e = .shown c ∧
        ((n.desk s).isReady = true → c.sync = false → Informs n s c n')) ∨ e.Ensues := by
  have informs {ses : Session} {c : Command} {rest : List Instruction}
      (found : n.session? s = some ses) (queued : ses.commands = .next c :: rest)
      (ready : (n.desk s).isReady = true) (lenient : c.sync = false) : Informs n s c n' := by
    rw [isReady_desk found, beq_iff_eq] at ready
    exact informs_command? took sound found queued lenient ready
  unfold command? at took
  cases found : n.session? s with
  | none => simp [found] at took
  | some ses =>
    simp only [found] at took
    split at took
    · split at took
      · cases took
      · rename_i rest queued
        cases took
        have found' := session?_modify (f := fun ses => { ses with commands := rest }) found
        have desk := desk_modify (f := fun ses => { ses with commands := rest }) found
        refine ⟨[.aside], .single (Desk.step_shut ?_), by simp [Minute.Ensues]⟩
        rw [desk_found found]
        exact (shut_stopOutbound found').of_eq (by rw [desk]; rfl) (by rw [desk]; rfl)
          (by rw [desk]; rfl) (by rw [desk]; rfl) (by rw [desk]; rfl) (by rw [desk]; rfl)
      · rename_i c rest queued
        cases took
        have found' := session?_modify (f := fun ses => { ses with commands := rest }) found
        have desk : (n.modify s fun ses => { ses with commands := rest }).desk s =
            { n.desk s with commands := rest } := by
          rw [desk_modify found, desk_found found]
          rfl
        have commands : (n.desk s).commands = .next c :: rest := by
          rw [desk_found found]
          exact queued
        have staffed' : (n.modify s fun ses => { ses with commands := rest }).StaffedAt s :=
          staffed.steady (.of_eq (by rw [desk]) (by rw [desk]) (by rw [desk]) (by rw [desk]))
        obtain ⟨es, trail, ensues⟩ := trail_handle _ s c.message staffed'
        obtain ⟨es', trail', asides⟩ := (comes_carryOut (c := c) found').trail
        rw [desk] at trail
        refine ⟨_, .cons (Desk.step_shown commands) ((trail.forward c).append trail'),
          fun e mem => ?_⟩
        rcases List.mem_cons.1 mem with rfl | mem
        · exact .inl ⟨c, rfl, informs found queued⟩
        · rcases List.mem_append.1 mem with mem | mem
          · exact .inr (ensues e mem)
          · rw [asides e mem]
            exact .inr trivial
    · cases took

theorem desk_carryOut_other (n : Node) (c : Command) (other : s ≠ t) :
    (n.carryOut s c).desk t = (n.handle s c.message).desk t := by
  have sent := (n.handle s c.message).sendNow_cases s c.message
  unfold carryOut
  simp only
  split
  · split
    · rcases sent with sent | ⟨_, _, _, _, sent⟩
      · rw [sent]
        exact desk_stopOutbound_other _ other
      · rw [sent]
        exact desk_modify_other other
    · exact desk_modify_other other
  · rfl

theorem desk_command?_other (took : n.command? s = some n') (other : s ≠ t) :
    n'.desk t = n.desk t := by
  unfold command? at took
  split at took
  · cases took
  · split at took
    · split at took
      · cases took
      · cases took
        rw [desk_stopOutbound_other _ other, desk_modify_other other]
      · rename_i c rest queued
        cases took
        rw [desk_carryOut_other _ c other, desk_handle_other _ _ other, desk_modify_other other]
    · cases took

/-! ## Turns of the workers and of the threads -/

/-- A worker takes up a request, or the thread does that a call runs on. -/
inductive TakesUp (s : SessionId) (job : Job) (n n' : Node) : Prop
  | worker {ses : Session} {pool : WorkerPool Job} (found : n.session? s = some ses)
      (first : ses.pool.take = some (.job job, pool)) (took : n.work? s = some n')
  | thread {ses : Session} (found : n.session? s = some ses) (spawned : job.message ∈ ses.dials)
      (call : job.kind = .invoke) (done : n' = n.dial s job.message)

section Worker

variable {job : Job} {pool : WorkerPool Job}

/-- As long as a session goes on, no worker is told to stop. -/
theorem shut_of_stop (found : n.session? s = some ses) (staffed : n.StaffedAt s)
    (taken : ses.pool.take = some (.stop, pool)) :
    (n.desk s).Shut ((n.modify s fun ses => { ses with pool }).desk s) := by
  have ended : (n.desk s).goesOn = false := by
    refine Bool.eq_false_iff.2 fun goesOn => ?_
    have goOn := (staffed goesOn).goOn
    rw [desk_found found] at goOn
    have stop : .stop ∈ ses.pool.queue := by
      rw [(WorkerPool.take_eq_some_stop taken).1]
      exact List.mem_cons_self
    exact goOn stop
  rw [desk_found found] at ended
  exact shut_modify found (Bool.not_eq_eq_eq_not.1 ended) rfl rfl

theorem desk_took (found : n.session? s = some ses) (taken : ses.pool.take = some (.job job, pool)) :
    (n.desk s).pool.take = some (.job job, pool) ∧
      { (n.modify s fun ses => { ses with pool }).desk s with pool := ses.pool } = n.desk s := by
  rw [desk_modify found, desk_found found]
  exact ⟨taken, rfl⟩

/-- A request that a worker takes up is dropped, or answered, or waits. -/
theorem trail_conclude (found : n.session? s = some ses)
    (taken : ses.pool.take = some (.job job, pool)) :
    ∃ es, Desk.Trail (n.desk s) es
        ((conclude s job ((n.modify s fun ses => { ses with pool }).serve s job)).desk s) ∧
      ∀ e ∈ es, (e = .dropped job ∨ (∃ r, e = .answered job r) ∨ e = .waits job) ∨ e.Ensues := by
  have found' := session?_modify (f := fun ses => { ses with pool }) found
  obtain ⟨taken', before⟩ := desk_took found taken
  have dealt := dealt_serve found' job
  generalize (n.modify s fun ses => { ses with pool }).serve s job = r at dealt ⊢
  obtain ⟨held, n₁⟩ := r
  cases held with
  | none =>
    have consumes := Desk.consumes_take taken'
    rw [← before] at consumes
    obtain ⟨es, trail, serves⟩ := trail_dealt (g := (·.finish job)) found' dealt consumes
    rw [before] at trail
    refine ⟨es, trail, fun e mem => ?_⟩
    rcases serves e mem with drops | answers | waits | ensues
    · exact .inl (.inl drops)
    · exact .inl (.inr (.inl answers))
    · exact .inl (.inr (.inr waits))
    · exact .inr ensues
  | some p =>
    cases dealt with
    | parked read itself free registered known right =>
      subst itself
      refine ⟨[.waits p.job], .single ?_, by simp⟩
      have free' : p.job.key ∉ (n.desk s).markers := by
        rw [desk_found found]
        exact free
      have step := Desk.step_parks taken' free'
      have found'' := session?_modify (f := (·.claim p.job.message.key)) found'
      show (n.desk s).Step _ ((((n.modify s _).modify s _).modify s _).desk s)
      rw [desk_modify found'']
      rw [desk_found found] at step ⊢
      exact step

theorem undisturbed_conclude (found : n.session? s = some ses) (other : job.kind ≠ .invoke) :
    Undisturbed n (conclude s job ((n.modify s fun ses => { ses with pool }).serve s job)) := by
  have taking : Undisturbed n (n.modify s fun ses => { ses with pool }) := .apart n s fun _ => rfl
  have dealt := dealt_serve (session?_modify (f := fun ses => { ses with pool }) found) job
  generalize (n.modify s fun ses => { ses with pool }).serve s job = r at dealt ⊢
  obtain ⟨held, n₁⟩ := r
  have served := taking.trans (undisturbed_dealt dealt other)
  cases held with
  | none => exact served.trans (.apart n₁ s fun _ => rfl)
  | some p => exact served.trans (.apart n₁ s fun _ => rfl)

end Worker

/-- A turn of a worker: a request is dropped, or answered, or waits. -/
theorem trail_work? (took : n.work? s = some n') (staffed : n.StaffedAt s) :
    ∃ es, Desk.Trail (n.desk s) es (n'.desk s) ∧
      ∀ e ∈ es, (∃ job, (e = .dropped job ∨ (∃ r, e = .answered job r) ∨ e = .waits job) ∧
        TakesUp s job n n' ∧ (job.kind ≠ .invoke → Undisturbed n n')) ∨ e.Ensues := by
  cases found : n.session? s with
  | none => simp [work?, found] at took
  | some ses =>
    cases taken : ses.pool.take with
    | none => simp [work?, found, taken] at took
    | some next =>
      obtain ⟨task, pool⟩ := next
      cases task with
      | stop =>
        simp only [work?, found, taken, Option.some.injEq] at took
        subst took
        exact ⟨[.aside], .single (Desk.step_shut (shut_of_stop found staffed taken)),
          by simp [Minute.Ensues]⟩
      | job job =>
        have takes : TakesUp s job n n' := .worker found taken took
        rw [work?_of_job found taken] at took
        cases took
        obtain ⟨es, trail, serves⟩ := trail_conclude found taken
        exact ⟨es, trail, fun e mem =>
          (serves e mem).imp_left fun deals => ⟨job, deals, takes, undisturbed_conclude found⟩⟩

/-- Seen from another session, a worker begins an execution at most. -/
theorem trail_work?_other (took : n.work? s = some n') (other : s ≠ t) :
    ∃ es, Desk.Trail (n.desk t) es (n'.desk t) ∧ ∀ e ∈ es, e.Ensues := by
  unfold work? at took
  split at took
  · cases took
  · rename_i ses found
    split at took
    · cases took
    · cases took
      rw [desk_modify_other other]
      exact ⟨[], .nil _, by simp⟩
    · rename_i job pool taken
      have found' := session?_modify (f := fun ses => { ses with pool }) found
      have dealt := trail_dealt_other other (dealt_serve found' job)
      rw [desk_modify_other other] at dealt
      cases Option.some.inj took
      split
      all_goals
        rename_i served
        rw [served] at dealt
        rwa [desk_modify_other other]

/-- A thread takes up its call request, which is dropped, or answered, or waits. -/
theorem trail_dial {m : Message} (found : n.session? s = some ses) (spawned : m ∈ ses.dials) :
    ∃ es, Desk.Trail (n.desk s) es ((n.dial s m).desk s) ∧ ∀ e ∈ es, e.Serves ⟨.invoke, m⟩ := by
  have found' := session?_modify (f := (·.pickUp m)) found
  have dealt := dealt_serve found' ⟨.invoke, m⟩
  have before : { (n.modify s (·.pickUp m)).desk s with
      pool := ses.pool, dials := ses.dials } = n.desk s := by
    rw [desk_modify found, desk_found found]
    rfl
  have consumes : (n.desk s).Consumes ⟨.invoke, m⟩ ses.pool (ses.dials.erase m) := by
    rw [desk_found found]
    exact Desk.consumes_dial spawned
  unfold dial
  generalize (n.modify s (·.pickUp m)).serve s ⟨.invoke, m⟩ =
    r at dealt ⊢
  obtain ⟨p, n'⟩ := r
  cases p with
  | some p =>
    cases dealt with
    | parked read => cases read
  | none =>
    have left : ((n.modify s (·.pickUp m)).desk s).dials =
        ses.dials.erase m := by rw [desk_modify found]; rfl
    rw [← before, ← left] at consumes
    obtain ⟨es, trail, serves⟩ := trail_dealt (g := id) found' dealt consumes
    rw [modify_self (f := fun ses => { ses with pool := id ses.pool }) fun _ _ => rfl, before] at trail
    exact ⟨es, trail, serves⟩

/-- Seen from another session, a thread begins an execution at most. -/
theorem trail_dial_other {m : Message} (found : n.session? s = some ses) (other : s ≠ t) :
    ∃ es, Desk.Trail (n.desk t) es ((n.dial s m).desk t) ∧ ∀ e ∈ es, e.Ensues := by
  have found' := session?_modify (f := (·.pickUp m)) found
  have dealt := trail_dealt_other other (dealt_serve found' ⟨.invoke, m⟩)
  rwa [desk_modify_other other] at dealt

/-! ## Requests that waited -/

theorem trail_resume? (took : n.resume? s = some n') :
    ∃ p ∈ (n.desk s).parked, p.ref.key ∉ n.gates ∧
      ∃ r, (n.desk s).Step (.returned p.job r) (n'.desk s) := by
  unfold resume? at took
  split at took
  · cases took
  · rename_i ses found
    obtain ⟨p, free, rfl⟩ := Option.map_eq_some_iff.1 took
    have mem : p ∈ (n.desk s).parked := by
      rw [desk_found found]
      exact List.mem_of_find?_eq_some free
    have step := Desk.step_resumed (n.read p.simulator p.space p.ref) mem
    have opened : p.ref.key ∉ n.gates := by
      simpa using List.find?_some free
    refine ⟨p, mem, opened, _, step.comes ?_⟩
    rw [resume_eq, desk_modify (session?_modify found), desk_found found]
    exact Session.comes_reply _ _ p.job.kind _

theorem desk_resume?_other (took : n.resume? s = some n') (other : s ≠ t) :
    n'.desk t = n.desk t := by
  unfold resume? at took
  split at took
  · cases took
  · obtain ⟨p, _, rfl⟩ := Option.map_eq_some_iff.1 took
    exact (desk_modify_other other).trans (desk_modify_other other)

/-! ## Executions that end -/

theorem nodup_calls (sound : n.Sound) : n.calls.Nodup :=
  sound.apart.imp fun apart same => apart ⟨congrArg (·.session) same, congrArg (·.context) same⟩

/-- An execution that ends is what one request waited for, at most. -/
theorem ownCalls_forget {call : Call} (sound : n.Sound) (waits : call ∈ n.calls) (s : SessionId) :
    (n.ownCalls s).Perm ((call.origin.asked? s).toList ++ (n.forget call).ownCalls s) := by
  have calls : n.calls.Perm (call :: (n.forget call).calls) := by
    rw [calls_forget sound waits]
    have erased : n.calls.erase call = n.calls.filter (· ≠ call) := by
      rw [(nodup_calls sound).erase_eq_filter]
      exact List.filter_congr fun _ _ => by simp [bne, BEq.beq]
    rw [← erased]
    exact List.perm_cons_erase waits
  have own := calls.filterMap (·.origin.asked? s)
  rw [List.filterMap_cons] at own
  cases asked : call.origin.asked? s with
  | none =>
    rw [asked] at own
    exact own
  | some job =>
    rw [asked] at own
    exact own

theorem ownCalls_forget_apart {call : Call} (sound : n.Sound) (waits : call ∈ n.calls)
    (apart : call.origin.asked? s = none) : (n.forget call).ownCalls s = n.ownCalls s := by
  unfold ownCalls
  rw [calls_forget sound waits, List.filterMap_filter]
  refine List.filterMap_congr fun other _ => ?_
  by_cases same : other = call
  · rw [same, apart]
    simp
  · simp [same]

theorem desk_released (n : Node) (call : Call) (ctx : Context) (f : Context → Context)
    (s : SessionId) : (n.released call ctx f).desk s =
      { n.desk s with calls := (n.forget call).ownCalls s } := by
  have still := desk_apart n call.session s (f := fun ses =>
    { ses with
      transactions := (ses.transactions.modify call.context f).delete ctx.channel ctx.tx })
    fun _ _ _ _ => rfl
  rw [← still]
  exact desk_of_session? rfl

/-- An answer goes its way, unless the session does not even exist. -/
theorem comes_answer (n : Node) (s : SessionId) (job : Job) (result : Except SessionError Bytes) :
    ({ n.desk s with markers := (n.desk s).markers.filter (· != job.key) }.reply job.kind
      (reply job.message result)).Comes ((n.answer s job result).desk s) := by
  rw [answer_eq]
  cases found : n.session? s with
  | some ses =>
    rw [desk_modify found, desk_found found]
    exact Session.comes_reply _ _ job.kind _
  | none =>
    rw [desk_apart n s s fun _ ses found' => by rw [found] at found'; cases found']
    have absent : n.desk s = { ({} : Session).desk (n.ownCalls s) with isOpen := false } := by
      simp only [desk, found]
    obtain ⟨commands, outbox, replied, _⟩ := Desk.reply_eq
      { n.desk s with markers := (n.desk s).markers.filter (· != job.key) } job.kind
        (reply job.message result)
    rw [replied, absent]
    exact .inr ⟨rfl, fun goesOn => ⟨goesOn, rfl, rfl⟩, rfl, rfl, rfl⟩

/-- The result of an execution is the answer to the request that waited for it, if one did. -/
theorem trail_deliver {call : Call} {ctx : Context} {f : Context → Context}
    (result : Except SessionError Message) (sound : n.Sound) (waits : call ∈ n.calls) (s : SessionId) :
    ∃ r, Desk.Trail (n.desk s) ((call.origin.asked? s).toList.map (Minute.returned · r))
      (((n.released call ctx f).deliver call.origin result).desk s) := by
  have released := n.desk_released call ctx f s
  have split := ownCalls_forget sound waits s
  have apart := ownCalls_forget_apart (s := s) sound waits
  cases origin : call.origin with
  | caller label =>
    rw [apart (by rw [origin]; rfl), ← calls_desk] at released
    have same : ((n.released call ctx f).deliver (.caller label) result).desk s = n.desk s :=
      (desk_outside rfl rfl s).trans released
    rw [same]
    exact ⟨{ kind := .response }, .nil _⟩
  | request t c m =>
    obtain ⟨r, delivered⟩ : ∃ r, (n.released call ctx f).deliver (.request t c m) result =
        (n.released call ctx f).answer t ⟨.invoke, m⟩ r := ⟨_, rfl⟩
    rw [delivered]
    by_cases same : t = s
    · subst same
      have asked : (Origin.request t c m).asked? t = some ⟨.invoke, m⟩ := if_pos rfl
      rw [origin, asked, ← calls_desk] at split
      have comes := (n.released call ctx f).comes_answer t ⟨.invoke, m⟩ r
      rw [released] at comes
      have step := Desk.step_returned r split
      rw [asked]
      exact ⟨_, .single (step.comes comes)⟩
    · have asked : (Origin.request t c m).asked? s = none := if_neg same
      rw [apart (by rw [origin]; exact asked), ← calls_desk] at released
      rw [asked, answer_eq, desk_modify_other same, released]
      exact ⟨{ kind := .response }, .nil _⟩

theorem trail_finish? {call : Call} (finished : n.finish? call = some n') (sound : n.Sound)
    (waits : call ∈ n.calls) (s : SessionId) : ∃ r, Desk.Trail (n.desk s)
      ((call.origin.asked? s).toList.map (Minute.returned · r)) (n'.desk s) := by
  obtain ⟨ctx, m, _, _, rfl⟩ := finish?_cases finished
  exact trail_deliver _ sound waits s

theorem trail_expire {call : Call} (sound : n.Sound) (waits : call ∈ n.calls) (s : SessionId) :
    ∃ r, Desk.Trail (n.desk s) ((call.origin.asked? s).toList.map (Minute.returned · r))
      ((n.expire call).desk s) := by
  rcases n.expire_cases call with ⟨unknown, _⟩ | ⟨ctx, _, expired⟩
  · obtain ⟨ctx, known, _⟩ := sound.waits call waits
    rw [unknown] at known
    cases known
  · rw [expired]
    exact trail_deliver _ sound waits s

end Node

end ContractNode
