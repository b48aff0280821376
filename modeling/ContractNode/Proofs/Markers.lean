import ContractNode.Proofs.Minutes

/-!
# Request markers

While a request of a transaction waits, the session keeps a marker for the transaction and drops any
other request of it.

* `Node.Serves` : a request is answered, or waits;
* `Node.Guards` : what the markers of a session stand for, and what they do;
* `step_of_held` : a contract that sends a request whose marker is held changes nothing;
* `guards_of_moves` : the markers do what they are for, at any point of any run.
-/

namespace ContractNode

namespace Node

/-- Serving a request leads to an answer, which is sent or queued, or the request waits: for its key
to be read, or for a call to return. -/
inductive Serves (n : Node) (s : SessionId) (job : Job) : Prop
  | answers {n' : Node} {result : Except SessionError Bytes} (inside : Inside n n')
      (served : n.serve s job = (none, n'.modify s (·.reply job.kind (reply job.message result))))
  | reads {p : ParkedRead} (itself : p.job = job)
      (served : n.serve s job = (some p, n.modify s (·.claim job.key)))
  | calls {n' : Node} (served : n.serve s job = (none, n'))
      (waits : n'.ownCalls s = n.ownCalls s ++ [job])

/-- What the markers of a session stand for, and what they do. -/
structure Guards (n : Node) (s : SessionId) (ses : Session) : Prop where
  /-- There is one for each request that waits: for its key to be read, or for a call to return. -/
  keys : ses.transactions.markers.Perm ((ses.parked.map (·.job) ++ n.ownCalls s).map Job.key)
  nodup : ses.transactions.markers.Nodup
  /-- At rest, the only reads that wait are those of gated keys. -/
  gated : n.AtRest → ∀ p ∈ ses.parked, p.ref.key ∈ n.gates
  /-- Any other request of the transaction is dropped, by the workers and by the threads. -/
  dropped : ∀ job, job.key ∈ ses.transactions.markers → n.serve s job = (none, n)
  worker : ∀ job pool, job.key ∈ ses.transactions.markers →
    ses.pool.take = some (.job job, pool) →
      n.work? s = some (n.modify s fun ses => { ses with pool := pool.finish job })
  thread : ∀ m, m.key ∈ ses.transactions.markers →
    n.dial s m = n.modify s (·.pickUp m)
  /-- A contract that sends one leaves everything as it was, even if the worker that drops it may
  stand elsewhere in the list of those that have a job. -/
  ignored : ∀ m job, n.AtRest → ses.phase = .ready → ses.inbound = .running →
    (n.contractSends s m).1 = .ok () → m.job? = some job → job.key ∈ ses.transactions.markers →
      job.kind = .invoke ∨ 0 < ses.pool.idle →
        ∃ busy, busy.Perm ses.pool.busy ∧ n.step (.contractSends s m) =
          n.modify s fun ses => { ses with pool := { ses.pool with busy } }
  free : ∀ job, job.key ∉ ses.transactions.markers → n.Serves s job
  /-- Once a call has returned, with a result or without, requests of the transaction are served
  again; and so they are once a key can be read again. -/
  returned : ∀ call ∈ n.calls, ∀ job, call.origin.asked? s = some job →
    ∀ n', n.finish? call = some n' ∨ n' = n.expire call →
      ∀ job', job'.key = job.key → n'.Serves s job'
  resumed : ∀ n', n.resume? s = some n' → ∃ p ∈ ses.parked, p.ref.key ∉ n.gates ∧
    ∀ job, job.key = p.job.key → n'.Serves s job

variable {n n' : Node} {s : SessionId} {ses : Session} {job : Job} {m : Message}

/-! ## Requests that are served -/

theorem serves_of_free (found : n.session? s = some ses)
    (free : job.key ∉ ses.transactions.markers) : n.Serves s job := by
  have dealt := dealt_serve found job
  generalize served : n.serve s job = r at dealt
  obtain ⟨p, n'⟩ := r
  cases dealt with
  | dropped held => exact absurd held free
  | answered _ inside => exact .answers inside served
  | @stored _ _ _ _ l => exact .answers (.outside n l n.cursorCount) served
  | parked _ itself => exact .reads itself served
  | @calling t ses' c c' m calls =>
    refine .calls served ?_
    have asked : (Origin.request s c job.message).asked? s = some job := by
      rw [Origin.asked?, if_pos rfl, ← calls]
    refine (ownCalls_append (n.modify s (·.claim job.message.key)) _ s).trans ?_
    rw [asked]
    rfl

/-- A marker that is gone is in nobody's way. -/
theorem serves_of_returned {r : Message} (found : n'.session? s = some ses)
    (step : (n.desk s).Step (.returned job r) (n'.desk s)) {job' : Job}
    (same : job'.key = job.key) : n'.Serves s job' := by
  refine serves_of_free found fun held => ?_
  have markers := step.markers
  rw [desk_found found] at markers
  change ses.transactions.markers = (n.desk s).markers.filter (· != job.key) at markers
  rw [same, markers] at held
  simpa using (List.mem_filter.1 held).2

theorem session?_kept (same : n'.sessions.length = n.sessions.length)
    (found : n.session? s = some ses) : ∃ ses', n'.session? s = some ses' := by
  have present : s < n'.sessions.length := same ▸ (List.getElem?_eq_some_iff.1 found).1
  exact ⟨n'.sessions[s], List.getElem?_eq_getElem present⟩

theorem sessions_delivered (n : Node) (call : Call) (ctx : Context) (f : Context → Context)
    (origin : Origin) (result : Except SessionError Message) :
    ((n.released call ctx f).deliver origin result).sessions.length = n.sessions.length := by
  cases origin with
  | caller label => exact List.length_modify ..
  | request t c m => exact (List.length_modify ..).trans (List.length_modify ..)

theorem serves_of_call {call : Call} (sound : n.Sound) (waits : call ∈ n.calls)
    (found : n.session? s = some ses) (asked : call.origin.asked? s = some job)
    (done : n.finish? call = some n' ∨ n' = n.expire call) {job' : Job}
    (same : job'.key = job.key) : n'.Serves s job' := by
  have trail : ∃ r, (n.desk s).Step (.returned job r) (n'.desk s) := by
    have trail : ∃ r,
        Desk.Trail (n.desk s) ((call.origin.asked? s).toList.map (Minute.returned · r))
        (n'.desk s) := by
      rcases done with finished | rfl
      · exact trail_finish? finished sound waits s
      · exact trail_expire sound waits s
    rw [asked] at trail
    obtain ⟨r, trail⟩ := trail
    cases trail with
    | cons step rest =>
      cases rest
      exact ⟨r, step⟩
  have kept : n'.sessions.length = n.sessions.length := by
    rcases done with finished | rfl
    · obtain ⟨ctx, m, _, _, rfl⟩ := finish?_cases finished
      exact sessions_delivered ..
    · rcases n.expire_cases call with ⟨_, expired⟩ | ⟨ctx, _, expired⟩
      · rw [expired]
        rfl
      · rw [expired]
        exact sessions_delivered ..
  obtain ⟨ses', found'⟩ := session?_kept kept found
  obtain ⟨r, step⟩ := trail
  exact serves_of_returned found' step same

theorem serves_of_resume? (took : n.resume? s = some n') (found : n.session? s = some ses) :
    ∃ p ∈ ses.parked, p.ref.key ∉ n.gates ∧ ∀ job, job.key = p.job.key → n'.Serves s job := by
  obtain ⟨p, mem, opened, r, step⟩ := trail_resume? took
  rw [desk_found found] at mem
  refine ⟨p, mem, opened, fun job same => ?_⟩
  have kept : n'.sessions.length = n.sessions.length := by
    unfold resume? at took
    rw [found] at took
    obtain ⟨p, _, rfl⟩ := Option.map_eq_some_iff.1 took
    exact (List.length_modify ..).trans (List.length_modify ..)
  obtain ⟨ses', found'⟩ := session?_kept kept found
  exact serves_of_returned found' step same

/-! ## Requests that are dropped -/

theorem work?_of_held {pool : WorkerPool Job} (found : n.session? s = some ses)
    (held : job.key ∈ ses.transactions.markers) (taken : ses.pool.take = some (.job job, pool)) :
    n.work? s = some (n.modify s fun ses => { ses with pool := pool.finish job }) := by
  have found' := session?_modify (f := fun ses => { ses with pool }) found
  simp only [work?, found, taken, serve_held found' held, modify_modify]
  rfl

theorem dial_of_held (found : n.session? s = some ses) (held : m.key ∈ ses.transactions.markers) :
    n.dial s m = n.modify s (·.pickUp m) := by
  have found' := session?_modify (f := (·.pickUp m)) found
  have held' : (⟨.invoke, m⟩ : Job).key ∈
      (ses.pickUp m).transactions.markers := held
  rw [dial, serve_held found' held']

/-- The one worker that drops a request is idle again. -/
theorem finish_took {p : WorkerPool Job} (idle : 0 < p.idle) (job : Job) :
    ∃ busy, ({ p with idle := p.idle - 1, busy := p.busy ++ [job] } : WorkerPool Job).finish job =
      { p with busy } ∧ busy.Perm p.busy := by
  refine ⟨(p.busy ++ [job]).erase job, ?_, ?_⟩
  · simp [WorkerPool.finish, Nat.sub_add_cancel idle]
  · exact (List.perm_append_singleton job p.busy).erase job |>.trans (by simp)

/-- A node at rest stays so whichever workers have which jobs. -/
theorem atRest_busy (rest : n.AtRest) (found : n.session? s = some ses) (busy : List Job) :
    (n.modify s fun ses => { ses with pool := { ses.pool with busy } }).AtRest := by
  obtain ⟨commands, pool, dials, parked, inbox⟩ := (atRest_iff.1 rest).2 s ses found
  have nothing : WorkerPool.take { ses.pool with busy } = none := by
    rw [WorkerPool.take_eq_none_iff] at pool ⊢
    exact pool
  exact atRest_modify (fun ses => { ses with pool := { ses.pool with busy } }) rest found rfl
    ⟨commands, nothing, dials, parked, inbox⟩

/-- A contract that sends a request whose marker is held, to a session that can take it up, changes
nothing. -/
theorem step_of_held (rest : n.AtRest) (found : n.session? s = some ses)
    (ready : ses.phase = .ready) (running : ses.inbound = .running)
    (sent : (n.contractSends s m).1 = .ok ()) (asks : m.job? = some job)
    (held : job.key ∈ ses.transactions.markers) (able : job.kind = .invoke ∨ 0 < ses.pool.idle) :
    ∃ busy, busy.Perm ses.pool.busy ∧ n.step (.contractSends s m) =
      n.modify s fun ses => { ses with pool := { ses.pool with busy } } := by
  rw [step_contractSends rest found ready running sent, handle_of_asks found ready asks]
  by_cases call : job.kind = .invoke
  · have held' : (⟨.invoke, m⟩ : Job).key ∈ ses.transactions.markers := by
      rw [Message.job?_eq_some_iff] at asks
      rwa [Job.key, ← asks.2]
    rw [if_pos call, settle_of_dialled rest found,
      dial_dialled found ((atRest_iff.1 rest).2 s ses found).dials, serve_held found held',
      settle_of_atRest rest]
    refine ⟨ses.pool.busy, .refl _, (modify_self fun ses' found' => ?_).symm⟩
    cases Option.some.inj (found.symm.trans found')
    rfl
  · rw [if_neg call]
    have idle := able.resolve_left call
    have queue := WorkerPool.take_eq_none_iff.1 ((atRest_iff.1 rest).2 s ses found).pool idle
    have taken := take_queued idle queue job
    obtain ⟨busy, finished, perm⟩ := finish_took idle job
    generalize { ses.pool with idle := ses.pool.idle - 1, busy := ses.pool.busy ++ [job] } = pool
      at taken finished
    refine ⟨busy, perm, ?_⟩
    rw [submit_eq found idle]
    have found' := session?_modify (f := fun ses : Session =>
      { ses with pool := { ses.pool with queue := ses.pool.queue ++ [.job job] } }) found
    have turn := turn?_of_work? rest found (work?_of_held found' held taken)
    have done : (fun ses : Session => { ses with pool := pool.finish job }) ∘ (fun ses : Session =>
        { ses with pool := { ses.pool with queue := ses.pool.queue ++ [.job job] } }) =
          fun ses => { ses with pool := pool.finish job } := rfl
    have same : (n.modify s fun ses => { ses with pool := pool.finish job }) =
        n.modify s fun ses => { ses with pool := { ses.pool with busy } } :=
      modify_congr fun ses' found' => by
        cases Option.some.inj (found.symm.trans found')
        rw [finished]
    rw [settle_of_turn turn, modify_modify, done, same,
      settle_of_atRest (atRest_busy rest found busy)]

/-! ## Runs -/

/-- At any point of any run, the markers of a session are those of its requests that wait: for a
call to return or, while a key is gated, for their key to be read. Other requests with these keys
are dropped without a trace; requests with any other key are served, and so are those with the key
of a call once that has returned. -/
theorem guards_of_moves {P : Act → Prop} (built : ∀ a, P a → a.isManned = true)
    {channels historyless system : List String} {drill : Drill}
    (run : Moves P (withChannels channels historyless system drill) n)
    (found : n.session? s = some ses) : n.Guards s ses := by
  have attended :=
    attended_moves built (attended_withChannels channels historyless system drill) run
  have marked := attended.marked s
  rw [desk_found found] at marked
  exact {
    keys := Multiset.coe_eq_coe.1 marked.keys
    nodup := marked.nodup
    gated := fun rest => ((atRest_iff.1 rest).2 s ses found).parked
    dropped := fun job held => serve_held found held
    worker := fun job pool held taken => work?_of_held found held taken
    thread := fun m held => dial_of_held found held
    ignored := fun m job rest ready running sent asks held able =>
      step_of_held rest found ready running sent asks held able
    free := fun job free => serves_of_free found free
    returned := fun call waits job asked n' done job' same =>
      serves_of_call attended.sound waits found asked done same
    resumed := fun n' took => serves_of_resume? took found }

/-- A contract calls another one, which has not answered yet. -/
def callingRun : List Act :=
  let contract (name : String) : Message :=
    { kind := .register, payload := ContractId.codec.encode { name } }
  [.openSession {} {} .directory, .start 0, .contractSends 0 (contract "cc:1"),
    .openSession {} {} .directory, .start 1, .contractSends 1 (contract "dd:1"),
    .execute 0 "a" "ch" { kind := .transaction, tx := "t1" } none none,
    .contractSends 0 { kind := .invokeContract, channel := "ch", tx := "t1"
                       payload := CallSpec.codec.encode { contract := { name := "dd:1" } } }]

theorem guards_of_moves_callingRun : ∃ ses,
    ((withChannels ["ch"] [] [] {}).steps callingRun).session? 0 = some ses ∧
      ses.transactions.markers = ["cht1"] ∧
        ((withChannels ["ch"] [] [] {}).steps callingRun).Guards 0 ses := by
  have there : (((withChannels ["ch"] [] [] {}).steps callingRun).session? 0).any
      (·.transactions.markers == ["cht1"]) = true := by decide +kernel
  obtain ⟨ses, found, held⟩ := (Option.any_eq_true ..).1 there
  have run : Moves (·.isManned = true) (withChannels ["ch"] [] [] {})
      ((withChannels ["ch"] [] [] {}).steps callingRun) := moves_steps (by decide +kernel)
  exact ⟨ses, found, beq_iff_eq.1 held, guards_of_moves (fun _ => id) run found⟩

/-- A contract reads a key that cannot be read for now. -/
def gatedRun : List Act :=
  [.openSession {} {} .directory, .start 0,
    .contractSends 0 { kind := .register, payload := ContractId.codec.encode { name := "cc:1" } },
    .execute 0 "a" "ch" { kind := .transaction, tx := "t1" } none none, .gate "k",
    .contractSends 0 { kind := .getState, channel := "ch", tx := "t1"
                       payload := KeyRef.getCodec.encode { key := "k" } }]

/-- A read that waits for its key holds the marker of its transaction, although the contract has
called nobody, and another request of the transaction gets no answer. -/
theorem marked_of_gated :
    let n := (withChannels ["ch"] [] [] {}).steps gatedRun
    let m : Message :=
      { kind := .putState, channel := "ch", tx := "t1"
        payload := KeyWrite.codec.encode { key := "j", value := [1] } }
    (n.session? 0).map (·.transactions.markers) = some ["cht1"] ∧ n.ownCalls 0 = [] ∧
      (n.session? 0).map (·.link.outbox.queue) =
        ((n.step (.contractSends 0 m)).session? 0).map (·.link.outbox.queue) ∧
      ((n.step (.contractSends 0 m)).ledger.state "ch" "cc" "j").toOption = some none := by
  decide +kernel

end Node

end ContractNode
