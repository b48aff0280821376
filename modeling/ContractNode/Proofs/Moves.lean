import ContractNode.Proofs.Bound

/-!
# Moves, and what they do to the ledger

Coming to rest fixes an order in which loops, workers, threads and executions take their turns. Here
they take them in any order, and what comes from outside gets in between.

* `Node.Move`, `Node.Moves` : one indivisible thing that happens, and any number of them;
* `moves_steps` : acts that are carried out one after the other are moves;
* `act_or_path` : a move is an act, or done by deeds;
* `sound_move`, `every_moves` : what moves keep;
* `Node.Asks` : a session that is ready is shown a request;
* `leaves_act`, `move_cases` : a move leaves the ledger alone and queues what it is asked for,
  unless the ledger is supplied from outside or a worker writes it;
* `asked_of_queued` : every request that waits to be served has been shown to its session, which was
  ready.
-/

namespace ContractNode

/-- Whether an act sets the ledger up, outside of any session. -/
def Act.isSupply : Act → Bool
  | .createChannel .. | .seed .. => true
  | _ => false

namespace Node

/-- One indivisible thing that happens to a node, where the acts in `P` can come from outside. Time
passes by itself, and an execution may run out of it at any time. -/
inductive Move (P : Act → Prop) : Node → Node → Prop
  | act {n : Node} (a : Act) (given : P a) (once : ∀ span, a ≠ .pass span) : Move P n (n.act a)
  | finish {n n' : Node} {call : Call} (waits : call ∈ n.calls)
      (finished : n.finish? call = some n') : Move P n n'
  | command {n n' : Node} {s : SessionId} (took : n.command? s = some n') : Move P n n'
  | work {n n' : Node} {s : SessionId} (took : n.work? s = some n') : Move P n n'
  | dial {n : Node} {s : SessionId} {ses : Session} {m : Message} (found : n.session? s = some ses)
      (spawned : m ∈ ses.dials) : Move P n (n.dial s m)
  | resume {n n' : Node} {s : SessionId} (took : n.resume? s = some n') : Move P n n'
  | receive {n n' : Node} {s : SessionId} (took : n.receive? s = some n') : Move P n n'
  | expire {n : Node} {call : Call} (waits : call ∈ n.calls) : Move P n (n.expire call)
  | tick {n : Node} (clock : Nat) : Move P n { n with clock }

/-- Any number of moves, in any order. -/
abbrev Moves (P : Act → Prop) : Node → Node → Prop := Relation.ReflTransGen (Move P)

variable {P : Act → Prop}

/-! ## Runs as moves -/

theorem move_dial? {n n' : Node} {s : SessionId} (h : n.dial? s = some n') : Move P n n' := by
  unfold dial? at h
  split at h
  · cases h
  · rename_i ses found
    obtain ⟨m, first, rfl⟩ := Option.map_eq_some_iff.1 h
    exact .dial found (List.mem_of_head? first)

theorem move_turn? {n n' : Node} (h : n.turn? = some n') : Move P n n' := by
  unfold turn? at h
  rcases eq_some_of_orElse h with h | h
  · obtain ⟨call, waits, h⟩ := List.exists_of_findSome?_eq_some h
    exact .finish waits h
  · obtain ⟨s, _, h⟩ := List.exists_of_findSome?_eq_some h
    unfold sessionTurn? at h
    rcases eq_some_of_orElse h with h | h
    · exact move_dial? h
    · rcases eq_some_of_orElse h with h | h
      · exact .command h
      · rcases eq_some_of_orElse h with h | h
        · exact .work h
        · rcases eq_some_of_orElse h with h | h
          · exact .resume h
          · exact .receive h

theorem moves_turns (k : Nat) (n : Node) : Moves P n (turns k n) := by
  induction k generalizing n with
  | zero => exact .refl
  | succ k ih =>
    unfold turns
    split
    · exact .refl
    · rename_i n' next
      exact .head (move_turn? next) (ih n')

theorem moves_lapseWhile (goOn : Node → Nat → Bool) (k : Nat) (n : Node) :
    Moves P n (lapseWhile goOn k n) := by
  induction k generalizing n with
  | zero => exact .refl
  | succ k ih =>
    unfold lapseWhile
    split
    · exact .refl
    · rename_i t c next
      split
      · have later : Move P n { n with clock := max n.clock t } := .tick _
        have waits : c ∈ ({ n with clock := max n.clock t } : Node).calls :=
          mem_calls_of_nextDue? next
        exact .head later (.head (.expire waits) ((moves_turns ..).trans (ih _)))
      · exact .refl

theorem moves_act {n : Node} {a : Act} (given : P a) : Moves P n (n.act a) := by
  by_cases span : ∃ span, a = .pass span
  · obtain ⟨span, rfl⟩ := span
    exact (moves_lapseWhile ..).tail (.tick _)
  · exact .single (.act a given fun t same => span ⟨t, same⟩)

/-- Acts that are carried out one after the other, with the node at rest in between. -/
theorem moves_steps {n : Node} {acts : List Act} (given : ∀ a ∈ acts, P a) :
    Moves P n (n.steps acts) := by
  induction acts generalizing n with
  | nil => exact .refl
  | cons a acts ih =>
    have act : Moves P n (n.act a) := moves_act (given a List.mem_cons_self)
    have settled : Moves P (n.act a) (n.step a) := moves_turns ..
    exact (act.trans settled).trans (ih fun a mem => given a (List.mem_cons_of_mem _ mem))

/-! ## What moves keep -/

/-- What does not come from outside is done by deeds. -/
theorem act_or_path {n n' : Node} (move : Move P n n') :
    (∃ a, P a ∧ (∀ span, a ≠ .pass span) ∧ n' = n.act a) ∨ Path n n' := by
  cases move with
  | act a given once => exact .inl ⟨a, given, once, rfl⟩
  | finish waits finished => exact .inr (.single (.finish waits finished))
  | command took => exact .inr (path_command? took)
  | work took => exact .inr (path_work? took)
  | dial => exact .inr (course_dial .. : Course (fun _ _ => True) _ _).path
  | resume took => exact .inr (stretch_resume? took : Stretch (fun _ _ => True) _ _).path
  | receive took => exact .inr (path_receive? took)
  | expire waits => exact .inr (.single (.expire waits))
  | tick clock => exact .inr (.single (.chore (.tick clock)))

theorem sound_move {n n' : Node} (sound : n.Sound) (move : Move P n n') : n'.Sound := by
  rcases act_or_path move with ⟨a, _, _, rfl⟩ | path
  · exact sound_act sound a
  · exact sound_path sound path

theorem sound_moves {n n' : Node} (sound : n.Sound) (moves : Moves P n n') : n'.Sound := by
  induction moves with
  | refl => exact sound
  | tail _ move ih => exact sound_move ih move

section Every

variable {A : Act → Prop} {Q : Context → Prop} {n n' : Node}

theorem every_move (heir : Hereditary A Q) (h : n.Every Q) (given : ∀ a, P a → A a)
    (move : Move P n n') : n'.Every Q := by
  rcases act_or_path move with ⟨a, allowed, _, rfl⟩ | path
  · exact every_act heir h (given a allowed)
  · exact every_path heir h path

theorem every_moves (heir : Hereditary A Q) (h : n.Every Q) (given : ∀ a, P a → A a)
    (moves : Moves P n n') : n'.Every Q := by
  induction moves with
  | refl => exact h
  | tail _ move ih => exact every_move heir ih given move

end Every

/-! ## Acts that leave the ledger alone -/

variable {new : SessionId → Job → Prop}

theorem leaves_openSession (n : Node) (config : SessionConfig) (access : AccessPolicy)
    (launcher : Launcher) : Leaves new n (n.openSession config access launcher).2 := by
  refine ⟨rfl, fun s job there => .inl ?_⟩
  obtain ⟨ses, found, queued⟩ := there
  rcases session?_openSession found with there | ⟨_, rfl⟩
  · exact ⟨ses, there, queued⟩
  · -- The new session has nothing to serve yet.
    rcases queued with queued | ⟨_, dialled⟩
    · cases queued
    · cases dialled

theorem leaves_start (n : Node) (s : SessionId) : Leaves new n (n.start s).2 := by
  rcases n.start_cases s with same | ⟨ses, _, _, started⟩
  · rw [same]
    exact .refl n
  · rw [started]
    exact .apart n s fun _ => rfl

theorem leaves_poll (n : Node) (s : SessionId) (c : Nat) : Leaves new n (n.poll s c).2 := by
  rcases n.poll_cases s c with ⟨_, polls⟩ | ⟨ctx, _, polls⟩
  · rw [polls]
    exact .refl n
  · rw [polls]
    exact leaves_modifyContext ..

theorem leaves_act (n : Node) (a : Act) (once : ∀ span, a ≠ .pass span)
    (other : a.isSupply = false)
    (allowed : ∀ s job, a = .handle s job.message → n.Accepts s job → new s job) :
    Leaves new n (n.act a) := by
  cases talker : a.talker? with
  | some s => exact leaves_talks (n.talks_act talker)
  | none =>
    cases a with
    | createChannel | seed => cases other
    | pass span => exact absurd rfl (once span)
    | handle s m =>
      have handled : Stretch new n (n.handle s m) := stretch_handle fun job same => by
        subst same
        exact allowed s job rfl
      exact handled.leaves
    | openSession config access launcher => exact leaves_openSession ..
    | start s => exact leaves_start ..
    | notify s m => exact .apart n s fun ses => ses.errands_notify m
    | deregister s => exact leaves_deregister n s
    | ready s channel tx signedProposal proposal => exact leaves_ready ..
    | poll s c => exact leaves_poll n s c
    | deleteContext s channel tx => exact leaves_deleteContext n s channel tx
    | execute s label channel m signedProposal proposal =>
      exact leaves_started (started_execute n s label channel m signedProposal proposal)
    | run s label i => exact leaves_started (started_run n s label i)
    | registerKey key s =>
      obtain ⟨directory, given⟩ := n.registerKey_eq key s
      show Leaves new n (n.registerKey key s).2
      rw [given]
      exact .outside rfl rfl
    | deregisterKey | gate | ungate => exact .outside rfl rfl
    | _ => cases talker

/-! ## Requests that are queued -/

/-- The lifecycle of a session is shown a message: somebody from outside hands it in, the inbound
loop has received it, or it is the outbound loop's turn to show it. -/
inductive Shows (s : SessionId) (m : Message) : Node → Node → Prop
  | handed {n : Node} : Shows s m n (n.act (.handle s m))
  | received {n n' : Node} {ses : Session} {inbox : Pipe (Except StreamError Message)}
      (found : n.session? s = some ses) (running : ses.inbound = .running)
      (taken : ses.link.inbox.receive = (.item (.ok m), inbox)) (took : n.receive? s = some n') :
      Shows s m n n'
  | triggered {n n' : Node} {ses : Session} {c : Command} {rest : List Instruction}
      (found : n.session? s = some ses) (running : ses.outbound = .running)
      (queued : ses.commands = .next c :: rest) (message : c.message = m)
      (took : n.command? s = some n') : Shows s m n n'

/-- A session that is ready is shown a message, and takes it for a request. -/
structure Asks (s : SessionId) (job : Job) (n n' : Node) : Prop where
  shows : Shows s job.message n n'
  accepts : n.Accepts s job

theorem queued_supply {n : Node} {a : Act} (supply : a.isSupply = true) {s : SessionId} {job : Job}
    (there : (n.act a).Queued s job) : n.Queued s job := by
  cases a with
  | createChannel channel => exact there
  | seed channel tx space collection entries =>
    obtain ⟨ledger, given⟩ := n.seed_eq channel tx space collection entries
    change Queued (n.seed channel tx space collection entries).2 s job at there
    rw [given] at there
    exact there
  | _ => cases supply

theorem queued_storedNode {n : Node} {s t : SessionId} {ses : Session} {job job' : Job}
    {pool : WorkerPool Job} {l : Ledger} (found : n.session? s = some ses)
    (taken : ses.pool.take = some (.job job, pool))
    (there : (n.storedNode s job pool l).Queued t job') : n.Queued t job' := by
  have left : Leaves (fun _ _ => False) { n with ledger := l } (n.storedNode s job pool l) := by
    have took : Leaves (fun _ _ => False) { n with ledger := l }
        ({ n with ledger := l }.modify s fun ses => { ses with pool }) := by
      refine .modify _ s fun ses' found' job' queued => queued.imp_left fun queued => ?_
      cases Option.some.inj (found.symm.trans found')
      rw [(WorkerPool.take_eq_some_job taken).1]
      exact List.mem_cons_of_mem _ queued
    have replied := took.trans
      (.apart _ s fun ses => (ses.talks_reply job.kind (reply job.message (.ok []))).errands)
    refine replied.trans (.modify _ s fun ses _ _ queued => queued.imp_left fun queued => ?_)
    rwa [WorkerPool.queue_finish] at queued
  exact (left.queued t job' there).resolve_right id

/-- A move leaves the ledger alone and queues at most what a session is asked, unless it supplies
the ledger from outside, or a worker serves a request that writes it. -/
theorem move_cases {n n' : Node} (move : Move P n n') :
    Leaves (fun s job => Asks s job n n') n n' ∨
      (∃ a, P a ∧ a.isSupply = true ∧ n' = n.act a) ∨
        ∃ s ses job pool ctx sim space w l, n.session? s = some ses ∧
          ses.pool.take = some (.job job, pool) ∧ n.Stores ses job ctx sim space w l ∧
            n' = n.storedNode s job pool l := by
  cases move with
  | act a given once =>
    cases supply : a.isSupply with
    | true => exact .inr (.inl ⟨a, given, supply, rfl⟩)
    | false =>
      refine .inl (leaves_act n a once supply fun s job handed accepts => ⟨?_, accepts⟩)
      subst handed
      exact .handed
  | finish waits finished => exact .inl (leaves_finish? finished)
  | @command _ s took =>
    obtain ⟨ses, found⟩ := session?_of_turn took fun none => by simp [command?, none]
    have turn : Stretch (fun s job => Asks s job n n') n n' :=
      stretch_command? took found fun job c rest running queued message accepts =>
        ⟨.triggered found running queued message.symm took, accepts⟩
    exact .inl turn.leaves
  | @work _ s took =>
    rcases work?_cases took with stretch | ⟨ses, job, pool, ctx, sim, space, w, l, found, taken,
      stores, stored⟩
    · exact .inl stretch.leaves
    · exact .inr (.inr ⟨s, ses, job, pool, ctx, sim, space, w, l, found, taken, stores, stored⟩)
  | dial => exact .inl (course_dial ..).leaves
  | resume took => exact .inl (stretch_resume? took).leaves
  | @receive _ s took =>
    obtain ⟨ses, found⟩ := session?_of_turn took fun none => by simp [receive?, none]
    have turn : Stretch (fun s job => Asks s job n n') n n' :=
      stretch_receive? took found fun job inbox running taken accepts =>
        ⟨.received found running taken took, accepts⟩
    exact .inl turn.leaves
  | expire waits => exact .inl (leaves_expire ..)
  | tick clock => exact .inl (.outside rfl rfl)

theorem queued_of_move {n n' : Node} (move : Move P n n') {s : SessionId} {job : Job}
    (there : n'.Queued s job) : n.Queued s job ∨ Asks s job n n' := by
  rcases move_cases move with leaves | ⟨a, _, supply, rfl⟩ |
    ⟨t, ses, job', pool, ctx, sim, space, w, l, found, taken, _, rfl⟩
  · exact leaves.queued s job there
  · exact .inl (queued_supply supply there)
  · exact .inl (queued_storedNode found taken there)

/-- In the moves from one node to another, a session was asked something while it was ready. -/
def Asked (P : Act → Prop) (s : SessionId) (job : Job) (n₀ n : Node) : Prop :=
  ∃ m m', Moves P n₀ m ∧ Move P m m' ∧ Asks s job m m' ∧ Moves P m' n

theorem Asked.kind {s : SessionId} {job : Job} {n₀ n : Node} (h : Asked P s job n₀ n) :
    (Event.ofKind? job.message.kind).bind RequestKind.ofEvent? = some job.kind := by
  obtain ⟨_, _, _, _, asks, _⟩ := h
  exact asks.accepts.asked

/-- Whatever a session has yet to serve was asked of it while it was ready. -/
theorem asked_of_queued {n₀ n : Node} (none : ∀ s job, ¬ n₀.Queued s job) (moves : Moves P n₀ n)
    {s : SessionId} {job : Job} (there : n.Queued s job) : Asked P s job n₀ n := by
  induction moves with
  | refl => exact absurd there (none s job)
  | tail before move ih =>
    rcases queued_of_move move there with there | asks
    · obtain ⟨m, m', reached, asking, asks, on⟩ := ih there
      exact ⟨m, m', reached, asking, asks, on.tail move⟩
    · exact ⟨_, _, before, move, asks, .refl⟩

end Node

end ContractNode
