import ContractNode.Proofs.Serving

/-!
# Showing a message to a lifecycle

* `Message.job?` : the request that a message is to a ready session;
* `course_spawn`, `course_submit` : what a ready session does with requests;
* `course_dial` : what a thread does with its call request;
* `Handled` : what showing a message to a lifecycle comes to (`handled_handle`).
-/

namespace ContractNode

/-- The request that a message is to a ready session, if it is one. -/
def Message.job? (m : Message) : Option Job :=
  ((Event.ofKind? m.kind).bind RequestKind.ofEvent?).map fun kind => ⟨kind, m⟩

theorem Message.job?_eq_some_iff {m : Message} {job : Job} : m.job? = some job ↔
    (Event.ofKind? m.kind).bind RequestKind.ofEvent? = some job.kind ∧ job.message = m := by
  obtain ⟨kind, m'⟩ := job
  simp only [Message.job?, Option.map_eq_some_iff, Job.mk.injEq]
  constructor
  · rintro ⟨kind', asked, rfl, rfl⟩
    exact ⟨asked, rfl⟩
  · rintro ⟨asked, rfl⟩
    exact ⟨kind, asked, rfl, rfl⟩

namespace Node

/-! ## Requests to a ready session -/

variable {new : SessionId → Job → Prop}

theorem session?_of_phases {n n' : Node} (h : n'.phases = n.phases) {s : SessionId}
    {ses : Session} (found : n.session? s = some ses) :
    ∃ ses', n'.session? s = some ses' ∧ ses'.phase = ses.phase := by
  have same := congrArg (·[s]?) h
  simp only [phases, List.getElem?_map] at same
  rw [show n.sessions[s]? = some ses from found] at same
  exact Option.map_eq_some_iff.1 same

theorem Course.setPhase {n n' : Node} (h : Course new n n') {s : SessionId} {ses : Session}
    (found : n.session? s = some ses) : n'.setPhase s ses.phase = n' := by
  obtain ⟨ses', found', same⟩ := session?_of_phases h.phases found
  exact phase_found found' same

theorem course_submit {n : Node} {s : SessionId} {ses : Session} {job : Job}
    (allowed : new s job) (found : n.session? s = some ses) (ready : ses.phase = .ready) :
    Course new n (n.submit s job).2 := by
  simp only [Node.submit, found, Session.submit]
  split
  · exact .refl n
  · rename_i ses' submitted
    split at submitted
    · rename_i pool done
      cases submitted
      rw [← modify_found found fun ses => { ses with pool := pool }]
      refine .chore (.submit found ready done) ⟨rfl, fun t job' there => ?_⟩
        (phases_modify fun _ => rfl)
      obtain ⟨ses', found', queued⟩ := there
      rcases session?_modify_cases found' with ⟨rfl, ses₁, there, rfl⟩ | ⟨_, found'⟩
      · cases Option.some.inj (found.symm.trans there)
        rcases queued with queued | dialled
        · rw [WorkerPool.queue_submit done] at queued
          rcases List.mem_append.1 queued with queued | fresh
          · exact .inl ⟨ses, found, .inl queued⟩
          · cases List.mem_singleton.1 fresh
            exact .inr allowed
        · exact .inl ⟨ses, found, .inr dialled⟩
      · exact .inl ⟨ses', found', queued⟩
    · cases submitted

theorem course_spawn {n : Node} {s : SessionId} {ses : Session} {m : Message}
    (allowed : new s ⟨.invoke, m⟩) (found : n.session? s = some ses) (ready : ses.phase = .ready) :
    Course new n (n.modify s (·.dial m)) := by
  refine .chore (.spawn m found ready) ⟨rfl, fun t job there => ?_⟩ (phases_modify fun _ => rfl)
  obtain ⟨ses', found', queued⟩ := there
  rcases session?_modify_cases found' with ⟨rfl, ses₁, there, rfl⟩ | ⟨_, found'⟩
  · rcases queued with queued | ⟨kind, dialled⟩
    · exact .inl ⟨ses₁, there, .inl queued⟩
    · rcases List.mem_append.1 dialled with dialled | fresh
      · exact .inl ⟨ses₁, there, .inr ⟨kind, dialled⟩⟩
      · obtain ⟨kind', m'⟩ := job
        cases kind
        cases List.mem_singleton.1 fresh
        exact .inr allowed
  · exact .inl ⟨ses', found', queued⟩

theorem course_invoke (n : Node) (s : SessionId) (m : Message) :
    Course new n (n.serve s ⟨.invoke, m⟩).2 := by
  have served := served_serve n s ⟨.invoke, m⟩
  generalize n.serve s ⟨.invoke, m⟩ = r at served ⊢
  obtain ⟨p, n'⟩ := r
  cases served with
  | done course => exact course new
  | stored found stores =>
    obtain ⟨r, decoded, writes⟩ := stores.read
    have kind := Request.kind_of_decode decoded
    cases r with
    | invoke spec => cases writes
    | _ => cases kind
  | parked _ read => cases read

theorem course_dial (n : Node) (s : SessionId) (m : Message) : Course new n (n.dial s m) := by
  have started : Course new n (n.modify s (·.pickUp m)) := by
    refine .chore (.pickUp s m) (.modify n s fun ses _ job => ?_) (phases_modify fun _ => rfl)
    exact Or.imp_right (And.imp_right List.mem_of_mem_erase)
  exact started.trans (course_invoke _ s m)

/-! ## Lifecycles -/

/-- What showing a message to the lifecycle of a session comes to. -/
inductive Handled (n : Node) (s : SessionId) (m : Message) : Node → Prop
  | missing (none : n.session? s = none) : Handled n s m n
  /-- A message that ends a transaction passes a ready lifecycle by. -/
  | passes {ses : Session} (found : n.session? s = some ses)
      (passes : bypasses ses.phase m.kind = true) : Handled n s m (n.modify s (·.notify m))
  | registers {ses : Session} {n' : Node} (found : n.session? s = some ses)
      (created : ses.phase = .created) (registered : n.register s m = (.ok (), n'))
      (raised : Event.ofKind? m.kind = some .registered) :
      Handled n s m ((n'.modify s Session.announce).setPhase s .established)
  | refused {ses : Session} {n' : Node} {e : SessionError} (found : n.session? s = some ses)
      (created : ses.phase = .created) (refused : n.register s m = (.error e, n'))
      (raised : Event.ofKind? m.kind = some .registered) :
      Handled n s m (n'.setPhase s .created)
  | readies {ses : Session} (found : n.session? s = some ses)
      (established : ses.phase = .established) (raised : Event.ofKind? m.kind = some .ready) :
      Handled n s m ((n.modify s (·.notify m)).setPhase s .ready)
  | calls {ses : Session} (found : n.session? s = some ses) (ready : ses.phase = .ready)
      (asks : m.job? = some ⟨.invoke, m⟩) : Handled n s m (n.modify s (·.dial m))
  | submits {ses : Session} {kind : RequestKind} (found : n.session? s = some ses)
      (ready : ses.phase = .ready) (asks : m.job? = some ⟨kind, m⟩) (other : kind ≠ .invoke) :
      Handled n s m (n.submit s ⟨kind, m⟩).2
  | ignored {ses : Session} (found : n.session? s = some ses)
      (no : ses.phase = .ready → m.job? = none) : Handled n s m n

theorem next?_cases {s : SessionId} {p q : Phase} {e : Event} (h : p.next? e = some q) :
    (p = .created ∧ e = .registered ∧ q = .established) ∨
      (p = .established ∧ e = .ready ∧ q = .ready) ∨
        (p = .ready ∧ q = .ready ∧ (hooks s).before e = none) := by
  cases p <;> cases e <;> simp [Phase.next?] at h <;> subst h <;> simp [hooks]

section Raise

variable {n : Node} {s : SessionId} {ses : Session} {event : Event} {m : Message}

/-- What a ready session does after an event. -/
theorem handled_after (raised : Event.ofKind? m.kind = some event)
    (found : n.session? s = some ses) (ready : ses.phase = .ready) :
    Handled n s m ((Hooks.run ((hooks s).after event) .ready m n).2.setPhase s .ready) := by
  have called (asked : RequestKind.ofEvent? event = some .invoke) :
      Handled n s m ((n.modify s (·.dial m)).setPhase s .ready) := by
    have course : Course (fun _ _ => True) n (n.modify s (·.dial m)) :=
      course_spawn trivial found ready
    rw [← ready, course.setPhase found]
    exact .calls found ready (by simp [Message.job?, raised, asked])
  have submitted {kind : RequestKind} (asked : RequestKind.ofEvent? event = some kind)
      (other : kind ≠ .invoke) : Handled n s m ((n.submit s ⟨kind, m⟩).2.setPhase s .ready) := by
    have course : Course (fun _ _ => True) n (n.submit s ⟨kind, m⟩).2 :=
      course_submit trivial found ready
    rw [← ready, course.setPhase found]
    exact .submits found ready (by simp [Message.job?, raised, asked]) other
  have ignored (asked : RequestKind.ofEvent? event = none) :
      Handled n s m (n.setPhase s .ready) := by
    rw [phase_found found ready]
    exact .ignored found fun _ => by simp [Message.job?, raised, asked]
  cases event
  all_goals first
    | exact ignored rfl
    | exact called rfl
    | exact submitted rfl RequestKind.noConfusion

theorem handled_raise (raised : Event.ofKind? m.kind = some event)
    (found : n.session? s = some ses) :
    Handled n s m (((hooks s).raise event m ses.phase n).2.2.setPhase s
      ((hooks s).raise event m ses.phase n).2.1) := by
  cases reached : ses.phase.next? event with
  | none =>
    simp only [Hooks.raise, reached]
    rw [phase_found found rfl]
    refine .ignored found fun ready => ?_
    rw [ready] at reached
    have asks : RequestKind.ofEvent? event = none := by
      cases event
      all_goals first
        | rfl
        | cases reached
    simp [Message.job?, raised, asks]
  | some target =>
    rcases next?_cases (s := s) reached with
      ⟨created, rfl, rfl⟩ | ⟨established, rfl, rfl⟩ | ⟨ready, rfl, plain⟩
    · rw [created] at reached ⊢
      cases registered : n.register s m with
      | mk outcome n' =>
        cases outcome with
        | error e =>
          simp only [Hooks.raise, reached, hooks, Hooks.run, registered]
          exact .refused found created registered raised
        | ok _ =>
          simp [Hooks.raise, reached, hooks, Hooks.run, registered, Hooks.runEnter,
            Hooks.runAfter, RequestKind.ofEvent?]
          exact .registers found created registered raised
    · rw [established] at reached ⊢
      simp [Hooks.raise, reached, hooks, Hooks.run, Hooks.runEnter, Hooks.runAfter,
        RequestKind.ofEvent?]
      exact .readies found established raised
    · have after := handled_after raised found ready
      rw [← Hooks.runAfter_snd] at after
      rw [ready] at reached ⊢
      simp only [Hooks.raise, reached, plain, Hooks.run, if_true]
      exact after

end Raise

theorem handled_handle (n : Node) (s : SessionId) (m : Message) : Handled n s m (n.handle s m) := by
  unfold handle
  cases found : n.session? s with
  | none => exact .missing found
  | some ses =>
    simp only
    split
    · rename_i passes
      exact .passes found passes
    · split
      · rename_i silent
        exact .ignored found fun _ => by simp [Message.job?, silent]
      · rename_i raised
        exact handled_raise raised found

/-- No other kind of message than its own says that a session is ready. -/
theorem kind_of_readies {kind : MessageKind} (raised : Event.ofKind? kind = some .ready) :
    kind = .ready := by
  cases kind <;> simp [Event.ofKind?] at raised ⊢

/-- A session whose contract has registered becomes ready, which whoever waits for that is told. -/
theorem handle_of_readies {n : Node} {s : SessionId} {ses : Session} {m : Message}
    (found : n.session? s = some ses) (established : ses.phase = .established)
    (kind : m.kind = .ready) : n.handle s m = (n.modify s (·.notify m)).setPhase s .ready := by
  have apart : bypasses .established .ready = false := rfl
  simp [handle, found, established, apart, kind, Event.ofKind?, Hooks.raise, Phase.next?, hooks,
    Hooks.run, Hooks.runEnter, Hooks.runAfter, RequestKind.ofEvent?]

/-- A session that is ready gives calls a thread of their own, and queues other requests for its
workers. -/
theorem handle_of_asks {n : Node} {s : SessionId} {ses : Session} {m : Message} {job : Job}
    (found : n.session? s = some ses) (ready : ses.phase = .ready) (asks : m.job? = some job) :
    n.handle s m = if job.kind = .invoke then n.modify s (·.dial m) else (n.submit s job).2 := by
  have handled := handled_handle n s m
  have early {ses' : Session} {phase : Phase} (found' : n.session? s = some ses')
      (other : ses'.phase = phase) (apart : phase ≠ .ready) : False := by
    cases Option.some.inj (found.symm.trans found')
    exact apart (other.symm.trans ready)
  generalize n.handle s m = n' at handled ⊢
  cases handled with
  | missing none =>
    rw [none] at found
    cases found
  | @passes ses' _ passes =>
    simp only [bypasses, Bool.and_eq_true, Bool.or_eq_true, beq_iff_eq] at passes
    rcases passes.2 with kind | kind
    all_goals
      rw [Message.job?, kind] at asks
      cases asks
  | registers found' other => exact (early found' other Phase.noConfusion).elim
  | refused found' other => exact (early found' other Phase.noConfusion).elim
  | readies found' other => exact (early found' other Phase.noConfusion).elim
  | calls _ _ asks' =>
    cases asks.symm.trans asks'
    rfl
  | submits _ _ asks' other =>
    cases asks.symm.trans asks'
    exact (if_neg other).symm
  | ignored found' no =>
    cases Option.some.inj (found.symm.trans found')
    rw [no ready] at asks
    cases asks

/-- An answer that is shown to a session goes to whoever waits for the transaction, if it is a
failure and the session is ready, and to nobody otherwise. -/
theorem handle_of_answer {n : Node} {m : Message} (s : SessionId)
    (answer : m.kind = .response ∨ m.kind = .error) :
    n.handle s m =
      n.modify s fun ses => if bypasses ses.phase m.kind then ses.notify m else ses := by
  cases found : n.session? s with
  | none =>
    simp only [handle, found]
    exact (modify_self fun ses found' => by rw [found] at found'; cases found').symm
  | some ses =>
    by_cases passes : bypasses ses.phase m.kind = true
    · simp only [handle, found, passes, if_true]
      refine modify_congr fun ses' found' => ?_
      cases Option.some.inj (found.symm.trans found')
      exact (if_pos passes).symm
    · have still : n.modify s (fun ses => if bypasses ses.phase m.kind then ses.notify m else ses) =
          n := modify_self fun ses' found' => by
        cases Option.some.inj (found.symm.trans found')
        exact if_neg passes
      have event : Event.ofKind? m.kind = some .response ∨ Event.ofKind? m.kind = some .error :=
        answer.imp (fun kind => by rw [kind]; rfl) fun kind => by rw [kind]; rfl
      have silent : m.job? = none := by
        rcases answer with kind | kind
        all_goals
          rw [Message.job?, kind]
          rfl
      have handled := handled_handle n s m
      rw [still]
      generalize n.handle s m = n' at handled ⊢
      cases handled with
      | missing | ignored => rfl
      | passes found' passes' =>
        cases Option.some.inj (found.symm.trans found')
        exact absurd passes' passes
      | registers _ _ _ raised | refused _ _ _ raised | readies _ _ raised =>
        rw [raised] at event
        rcases event with event | event <;> cases event
      | calls _ _ asks | submits _ _ asks =>
        rw [silent] at asks
        cases asks

end Node

end ContractNode
