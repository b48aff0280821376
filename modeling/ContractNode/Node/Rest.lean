import ContractNode.Node.Adds
import ContractNode.Node.Clock

/-!
# Every node comes to rest

Each turn takes away more than it adds, so the turns that `Node.settle` has are enough.

* `weight_receive?`, `weight_command?`, `weight_work?`, `weight_dial?`, `weight_resume?`,
  `weight_finish?` : each kind of turn leaves less than there was;
* `weight_turn?` : so does any turn;
* `settle_atRest` : a node comes to rest;
* `weight_lapse` : an execution that runs out of time leaves less than there was;
* `lapseWhile_done` : executions run out of time until none has to;
* `lt_deadline_pass` : once a span of time has passed, whoever still waits has time left.
-/

namespace ContractNode

namespace Node

theorem weight_modify {n : Node} {s : SessionId} {f : Session → Session} {ses : Session}
    (found : n.session? s = some ses) :
    (n.modify s f).weight + ses.weight = n.weight + (f ses).weight := by
  have sum {l : List Session} {i : Nat} (h : l[i]? = some ses) :
      total Session.weight (l.modify i f) + ses.weight =
        total Session.weight l + (f ses).weight := by
    induction l generalizing i with
    | nil => simp at h
    | cons a l ih =>
      cases i with
      | zero =>
        cases h
        simp
        omega
      | succ i =>
        have := ih h
        simp
        omega
  have := sum found
  simp only [Node.weight, Node.modify]
  omega

theorem session?_modify {n : Node} {s : SessionId} {f : Session → Session} {ses : Session}
    (found : n.session? s = some ses) : (n.modify s f).session? s = some (f ses) := by
  have : n.sessions[s]? = some ses := found
  simp [Node.session?, Node.modify, this]

/-! ## Turns -/

theorem weight_stopInbound {n : Node} {s : SessionId} {ses : Session}
    (found : n.session? s = some ses) (running : ses.inbound = .running) :
    (n.stopInbound s).weight < n.weight := by
  have halted := weight_modify (f := fun ses => { ses with inbound := .stopped }) found
  have ended := adds_endSession
    (session?_modify (f := fun ses => { ses with inbound := .stopped }) found)
  have bound := ended.weight
  have less : { ses with inbound := .stopped }.weight + (ses.pool.size + 3) = ses.weight := by
    simp only [Session.weight, Session.loopWeight, running]
    omega
  simp only [stopInbound]
  simp only at bound
  omega

theorem weight_stopOutbound {n : Node} {s : SessionId} {ses : Session}
    (found : n.session? s = some ses) (running : ses.outbound = .running) :
    (n.stopOutbound s).weight < n.weight := by
  have ended := adds_endSession found
  have bound := ended.weight
  obtain ⟨ses', found', same⟩ := ended.session found
  have running' : ses'.outbound = .running := (congrArg (·.2.1) same).trans running
  have size : ses'.pool.size = ses.pool.size := congrArg (·.2.2) same
  have halted := weight_modify
    (f := fun ses => { ses with outbound := .stopped, commands := [] }) found'
  have less : { ses' with outbound := .stopped, commands := [] }.weight + (ses.pool.size + 3) ≤
      ses'.weight := by
    simp only [Session.weight, Session.loopWeight, running', total_nil, size]
    omega
  simp only [stopOutbound]
  omega

theorem weight_arrive {n : Node} {s : SessionId} {ses : Session} (m : Message)
    (found : n.session? s = some ses) (running : ses.inbound = .running) :
    (n.arrive s m).weight ≤ n.weight + (m.kind.weight - 1) := by
  rw [arrive]
  split
  · exact Nat.le_add_right ..
  · have handled := adds_handle n s m
    simp only
    split
    · obtain ⟨ses', found', same⟩ := handled.session found
      have running' : ses'.inbound = .running := (congrArg (·.1) same).trans running
      have := weight_stopInbound found' running'
      have := handled.weight
      omega
    · exact handled.weight

theorem weight_receive? {n n' : Node} {s : SessionId} (h : n.receive? s = some n') :
    n'.weight < n.weight := by
  rw [receive?] at h
  split at h
  · cases h
  · rename_i ses found
    split at h
    · rename_i running
      cases queued : ses.link.inbox.queue with
      | nil =>
        have ending : ses.link.inbox.receive =
            (if ses.link.inbox.closed then .endOfStream else .nothing, ses.link.inbox) := by
          simp [Pipe.receive, queued]
        rw [ending] at h
        split at h <;> rename_i received
        · cases h
        · cases h
          exact weight_stopInbound found running
        all_goals
          split at received <;> cases received
      | cons a rest =>
        obtain ⟨inbox, received, left⟩ :
            ∃ inbox, ses.link.inbox.receive = (.item a, inbox) ∧ inbox.queue = rest :=
          ⟨_, Pipe.receive_of_queue queued, rfl⟩
        rw [received] at h
        have less : (ses.withInbox inbox).weight + Session.arrivalWeight a = ses.weight := by
          simp only [Session.weight, Session.withInbox, Session.loopWeight, queued, left,
            total_cons]
          omega
        have taken := weight_modify (f := (·.withInbox inbox)) found
        have found' := session?_modify (f := (·.withInbox inbox)) found
        cases a with
        | error e =>
          cases h
          have := weight_stopInbound found' running
          simp only [Session.arrivalWeight] at less
          omega
        | ok m =>
          cases h
          have := weight_arrive m found' running
          simp only [Session.arrivalWeight] at less
          omega
    · cases h

theorem weight_carryOut {n : Node} {s : SessionId} {ses : Session} (c : Command)
    (found : n.session? s = some ses) (running : ses.outbound = .running) :
    (n.carryOut s c).weight ≤ n.weight + (c.message.kind.weight - 1) := by
  have handled := adds_handle n s c.message
  rw [carryOut]
  split
  · split
    · split
      · rename_i done
        have sent := handled.trans (adds_send _ s c.message)
        rw [send_of_sendNow done] at sent
        exact sent.weight
      · rename_i n₁ failed
        cases eq_of_sendNow failed
        obtain ⟨ses', found', same⟩ := handled.session found
        have running' : ses'.outbound = .running := (congrArg (·.2.1) same).trans running
        have stopped := weight_stopOutbound found' running'
        exact Nat.le_trans (Nat.le_of_lt stopped) handled.weight
    · exact (handled.trans (Adds.modify_same (fun ses => (ses.frame_sendAnyway c.message).1)
        fun ses => (ses.frame_sendAnyway c.message).2)).weight
  · exact handled.weight

theorem weight_command? {n n' : Node} {s : SessionId} (h : n.command? s = some n') :
    n'.weight < n.weight := by
  rw [command?] at h
  split at h
  · cases h
  · rename_i ses found
    split at h
    · rename_i running
      split at h
      · cases h
      · rename_i rest queued
        cases h
        have found' := session?_modify (f := fun ses => { ses with commands := rest }) found
        have taken := weight_modify (f := fun ses => { ses with commands := rest }) found
        have less : { ses with commands := rest }.weight + 1 = ses.weight := by
          simp only [Session.weight, Session.loopWeight, queued, total_cons,
            Session.instructionWeight]
          omega
        have := weight_stopOutbound found' running
        omega
      · rename_i c rest queued
        cases h
        have found' := session?_modify (f := fun ses => { ses with commands := rest }) found
        have taken := weight_modify (f := fun ses => { ses with commands := rest }) found
        have less : { ses with commands := rest }.weight + c.message.kind.weight = ses.weight := by
          simp only [Session.weight, Session.loopWeight, queued, total_cons,
            Session.instructionWeight]
          omega
        have := weight_carryOut c found' running
        have := c.message.kind.weight_pos
        omega
    · cases h

theorem weight_work? {n n' : Node} {s : SessionId} (h : n.work? s = some n') :
    n'.weight < n.weight := by
  rw [work?] at h
  split at h
  · cases h
  · rename_i ses found
    split at h
    · cases h
    · rename_i pool taken
      cases h
      obtain ⟨queued, _, _⟩ := WorkerPool.take_eq_some_stop taken
      have size : pool.size = ses.pool.size := WorkerPool.size_of_take taken
      have changed := weight_modify (f := fun ses => { ses with pool }) found
      have less : { ses with pool }.weight + 1 = ses.weight := by
        simp only [Session.weight, Session.loopWeight, queued, size, total_cons,
          Session.taskWeight]
        omega
      omega
    · rename_i job pool taken
      obtain ⟨queued, _, _⟩ := WorkerPool.take_eq_some_job taken
      have size : pool.size = ses.pool.size := WorkerPool.size_of_take taken
      have changed := weight_modify (f := fun ses => { ses with pool }) found
      have less : { ses with pool }.weight + 7 = ses.weight := by
        simp only [Session.weight, Session.loopWeight, queued, size, total_cons,
          Session.taskWeight]
        omega
      have served := adds_serve (n.modify s fun ses => { ses with pool }) s job
      cases Option.some.inj h
      split
      · rename_i n₁ done
        rw [done] at served
        have finished : Adds 0 n₁ (n₁.modify s fun ses =>
            { ses with pool := ses.pool.finish job }) :=
          Adds.modify_same
            (fun ses => by simp only [Session.frame, WorkerPool.size_finish])
            fun ses => by
              simp only [Session.weight, Session.loopWeight, WorkerPool.size_finish,
                WorkerPool.queue_finish]
        have := finished.weight
        have := served.weight
        simp only at this
        omega
      · rename_i p n₁ done
        rw [done] at served
        have parked : Adds 2 n₁ (n₁.modify s fun ses =>
            { ses with parked := ses.parked ++ [p] }) :=
          Adds.modify fun ses _ => ⟨rfl, by
            simp only [Session.weight, Session.loopWeight, List.length_append,
              List.length_singleton]
            omega⟩
        have := parked.weight
        have := served.weight
        simp only at this
        omega

theorem weight_dial {n : Node} {s : SessionId} {ses : Session} {m : Message}
    (found : n.session? s = some ses) (spawned : m ∈ ses.dials) : (n.dial s m).weight < n.weight := by
  have changed := weight_modify (f := (·.pickUp m)) found
  have shorter := List.length_erase_of_mem spawned
  have some := List.length_pos_of_mem spawned
  have less : (ses.pickUp m).weight + 7 = ses.weight := by
    simp only [Session.weight, Session.loopWeight, Session.pickUp, shorter]
    omega
  have served := (adds_serve (n.modify s (·.pickUp m)) s
    ⟨.invoke, m⟩).weight
  simp only [dial]
  omega

theorem weight_dial? {n n' : Node} {s : SessionId} (h : n.dial? s = some n') :
    n'.weight < n.weight := by
  rw [dial?] at h
  split at h
  · cases h
  · rename_i ses found
    obtain ⟨m, first, rfl⟩ := Option.map_eq_some_iff.1 h
    exact weight_dial found (List.mem_of_head? first)

theorem weight_resume? {n n' : Node} {s : SessionId} (h : n.resume? s = some n') :
    n'.weight < n.weight := by
  rw [resume?] at h
  split at h
  · cases h
  · rename_i ses found
    obtain ⟨p, ready, rfl⟩ := Option.map_eq_some_iff.1 h
    have present : p ∈ ses.parked := List.mem_of_find?_eq_some ready
    have changed := weight_modify (f := fun ses => { ses with
      parked := ses.parked.erase p, pool := ses.pool.finish p.job }) found
    have shorter := List.length_erase_of_mem present
    have some := List.length_pos_of_mem present
    have less : { ses with
        parked := ses.parked.erase p, pool := ses.pool.finish p.job }.weight + 2 = ses.weight := by
      simp only [Session.weight, Session.loopWeight, WorkerPool.size_finish,
        WorkerPool.queue_finish, shorter]
      omega
    have answered := (adds_answer (n.modify s fun ses => { ses with
      parked := ses.parked.erase p, pool := ses.pool.finish p.job }) s p.job
      (n.read p.simulator p.space p.ref)).weight
    simp only [resume]
    omega

theorem adds_deliver (n : Node) (origin : Origin) (result : Except SessionError Message) :
    Adds 1 n (n.deliver origin result) := by
  cases origin with
  | caller label => exact ⟨rfl, Nat.le_succ _⟩
  | request s c m =>
    cases result with
    | ok answer => exact adds_answer n s ⟨.invoke, m⟩ _
    | error e => exact adds_answer n s ⟨.invoke, m⟩ _

theorem weight_forget {n : Node} {call : Call} (h : call ∈ n.calls) :
    (n.forget call).weight + 2 ≤ n.weight := by
  have shorter : (n.forget call).calls.length < n.calls.length := by
    rw [forget, List.length_filter_lt_length_iff_exists]
    exact ⟨call, h, by simp⟩
  have same : (n.forget call).sessions = n.sessions := rfl
  simp only [Node.weight, same]
  omega

theorem weight_retire {n : Node} {call : Call} (c : Context) (h : call ∈ n.calls) :
    (n.retire call c).weight + 2 ≤ n.weight := by
  have dropped := adds_modifyContext n call.session call.context
    fun c => { c with slot := c.slot.drop }
  have deleted := (dropped.trans (adds_deleteContext _ call.session c.channel c.tx)).weight
  exact Nat.le_trans (weight_forget h) deleted

theorem weight_finish? {n n' : Node} {call : Call} (mem : call ∈ n.calls)
    (h : n.finish? call = some n') : n'.weight < n.weight := by
  rw [finish?] at h
  split at h
  · cases h
  · rename_i c _
    split at h
    · cases h
    · rename_i m _
      cases h
      have retired := weight_retire c mem
      have delivered := (adds_deliver (n.retire call c) call.origin (.ok m)).weight
      omega

/-! ## Coming to rest -/

theorem eq_some_of_orElse {α : Type} {a b : Option α} {x : α} (h : (a <|> b) = some x) :
    a = some x ∨ b = some x := by
  cases a with
  | none => exact .inr h
  | some y => exact .inl h

theorem weight_sessionTurn? {n n' : Node} {s : SessionId} (h : n.sessionTurn? s = some n') :
    n'.weight < n.weight := by
  rw [sessionTurn?] at h
  rcases eq_some_of_orElse h with h | h
  · exact weight_dial? h
  · rcases eq_some_of_orElse h with h | h
    · exact weight_command? h
    · rcases eq_some_of_orElse h with h | h
      · exact weight_work? h
      · rcases eq_some_of_orElse h with h | h
        · exact weight_resume? h
        · exact weight_receive? h

/-- Every turn takes away more than it adds. -/
theorem weight_turn? {n n' : Node} (h : n.turn? = some n') : n'.weight < n.weight := by
  rw [turn?] at h
  rcases eq_some_of_orElse h with h | h
  · obtain ⟨call, mem, h⟩ := List.exists_of_findSome?_eq_some h
    exact weight_finish? mem h
  · obtain ⟨s, _, h⟩ := List.exists_of_findSome?_eq_some h
    exact weight_sessionTurn? h

theorem turns_atRest (k : Nat) (n : Node) (h : n.weight ≤ k) : (turns k n).AtRest := by
  induction k generalizing n with
  | zero =>
    cases next : n.turn? with
    | none => exact next
    | some n' => exact absurd (weight_turn? next) (by omega)
  | succ k ih =>
    rw [turns]
    cases next : n.turn? with
    | none => exact next
    | some n' => exact ih n' (by have := weight_turn? next; omega)

theorem settle_atRest (n : Node) : n.settle.AtRest := turns_atRest n.weight n (Nat.le_refl _)

theorem weight_turns (k : Nat) (n : Node) : (turns k n).weight ≤ n.weight := by
  induction k generalizing n with
  | zero => exact Nat.le_refl _
  | succ k ih =>
    rw [turns]
    cases next : n.turn? with
    | none => exact Nat.le_refl _
    | some n' => exact Nat.le_trans (ih n') (Nat.le_of_lt (weight_turn? next))

theorem weight_settle (n : Node) : n.settle.weight ≤ n.weight := weight_turns n.weight n

/-! ## Running out of time -/

theorem weight_expire {n : Node} {call : Call} (mem : call ∈ n.calls) :
    (n.expire call).weight < n.weight := by
  rw [expire]
  split
  · have := weight_forget mem
    omega
  · rename_i c _
    have discarded := adds_discard n call.session call.context c
    have mem' : call ∈ (n.discard call.session call.context c).calls := mem
    have forgotten := weight_forget mem'
    have delivered := (adds_deliver ((n.discard call.session call.context c).forget call)
      call.origin (.error (.timeout c.tx))).weight
    have := discarded.weight
    omega

theorem weight_lapse {n : Node} {t : Nat} {c : Call} (h : n.nextDue? = some (t, c)) :
    (n.lapse t c).weight < n.weight := by
  have mem : c ∈ ({ n with clock := max n.clock t } : Node).calls := mem_calls_of_nextDue? h
  exact Nat.lt_of_le_of_lt (weight_settle _) (weight_expire mem)

/-- Executions run out of time until none is left that does so under the condition. -/
theorem lapseWhile_done {goOn : Node → Nat → Bool} (k : Nat) (n : Node) (h : n.weight ≤ k)
    {t : Nat} {c : Call} (next : (lapseWhile goOn k n).nextDue? = some (t, c)) :
    goOn (lapseWhile goOn k n) t = false := by
  induction k generalizing n with
  | zero => exact absurd (weight_lapse next) (by simp only [lapseWhile]; omega)
  | succ k ih =>
    revert next
    rw [lapseWhile]
    split
    · rename_i nothing
      intro next
      rw [nothing] at next
      cases next
    · rename_i t' c' first
      split
      · exact ih _ (by have := weight_lapse first; omega)
      · rename_i off
        intro next
        rw [first] at next
        cases next
        exact Bool.eq_false_iff.2 off

/-- Once a span of time has passed, whoever still waits has time left. -/
theorem lt_deadline_pass {n : Node} {span t : Nat} {c : Call} (mem : c ∈ (n.pass span).calls)
    (due : c.deadline = some t) : (n.pass span).clock < t := by
  have mem' : (t, c) ∈ (lapseWhile (fun _ t => t ≤ n.clock + span) n.weight n).dues :=
    mem_dues.2 ⟨mem, due⟩
  cases next : (lapseWhile (fun _ t => t ≤ n.clock + span) n.weight n).nextDue? with
  | none =>
    rw [dues_eq_nil_of_nextDue? next] at mem'
    cases mem'
  | some _ =>
    have least := le_of_nextDue? next mem'
    have stopped := lapseWhile_done n.weight n (Nat.le_refl _) next
    simp only [decide_eq_false_iff_not] at stopped
    simp only [pass]
    omega

end Node

end ContractNode
