import ContractNode.Proofs.Desk

/-!
# What may happen at a desk

The steps of desks, as changes of their parts.

* `Desk.Shut` : a desk is shut, and the same requests wait (`step_shut`, `Step.shut`);
* `Desk.present` : a message is shown to the lifecycle (`step_received`, `step_handed`,
  `step_shown`);
* `Desk.Consumes` : a request is taken out of the queue (`step_dropped`, `step_answered`,
  `step_calls`, `step_parks`);
* `step_resumed`, `step_returned` : a request that waited is answered;
* `step_ordered`, `step_said`, `step_read`, `step_arrived` : the rest.
-/

namespace ContractNode

/-! ## Workers -/

namespace WorkerPool

variable {p p' : WorkerPool Job} {job : Job}

/-- A worker that takes a job and finishes it is as idle as before. -/
theorem finish_of_take (taken : p.take = some (.job job, p')) :
    (p'.finish job).idle = p.idle ∧ (p'.finish job).busy.Perm p.busy := by
  obtain ⟨_, busy, idle⟩ := take_eq_some_job taken
  have mem : job ∈ p'.busy := busy ▸ List.mem_append_right _ List.mem_cons_self
  rw [finish, if_pos (List.contains_iff_mem.2 mem), idle]
  refine ⟨rfl, ?_⟩
  have whole : p'.busy.Perm (job :: p.busy) := busy ▸ List.perm_append_singleton ..
  exact (whole.erase job).trans (by rw [List.erase_cons_head])

end WorkerPool

namespace Desk

variable {d d₁ d' : Desk} {e : Minute} {job : Job} {m r : Message} {c : Command}

/-! ## Desks that are shut -/

structure Shut (d d' : Desk) : Prop where
  isOpen : d'.isOpen = false
  crew : d'.goesOn = true → d.goesOn = true ∧ d'.pool = d.pool ∧ d'.workers = d.workers
  markers : d'.markers = d.markers
  parked : d'.parked = d.parked
  calls : d'.calls = d.calls

theorem Shut.of_eq (h : d₁.Shut d') (goesOn : d₁.goesOn = d.goesOn) (pool : d₁.pool = d.pool)
    (workers : d₁.workers = d.workers) (parked : d₁.parked = d.parked) (calls : d₁.calls = d.calls)
    (markers : d₁.markers = d.markers) : d.Shut d' where
  isOpen := h.isOpen
  crew := by
    rw [← goesOn, ← pool, ← workers]
    exact h.crew
  markers := h.markers.trans markers
  parked := h.parked.trans parked
  calls := h.calls.trans calls

theorem Shut.waiting (h : d.Shut d') : d'.waiting = d.waiting := by
  unfold Desk.waiting
  rw [h.parked, h.calls]

theorem Shut.steady (h : d.Shut d') : d.Steady d' := by
  intro goesOn
  obtain ⟨goesOn, pool, workers⟩ := h.crew goesOn
  exact ⟨goesOn, fun staffed => staffed.of_eq pool workers h.parked⟩

theorem Shut.trans (h : d.Shut d₁) (h' : d₁.Shut d') : d.Shut d' := by
  refine ⟨h'.isOpen, fun goesOn => ?_, h'.markers.trans h.markers, h'.parked.trans h.parked,
    h'.calls.trans h.calls⟩
  obtain ⟨goesOn, pool', workers'⟩ := h'.crew goesOn
  obtain ⟨goesOn, pool, workers⟩ := h.crew goesOn
  exact ⟨goesOn, pool'.trans pool, workers'.trans workers⟩

/-- The books of a desk that is shut need not balance. -/
theorem Step.shut (h : d.Step e d₁) (shut : d₁.Shut d') : d.Step e d' where
  held := h.held
  free := h.free
  replies := h.replies
  markers := shut.markers.trans h.markers
  waiting := shut.waiting ▸ h.waiting
  steady := h.steady.trans shut.steady
  balance _ isOpen := by
    rw [shut.isOpen] at isOpen
    cases isOpen

/-- A step that is not about requests: nothing is dropped, taken up or answered. -/
theorem Step.plain (drops : e.drops = []) (taken : e.taken = []) (answers : e.answers = [])
    (remark : ∀ ms, e.remark ms = ms) (markers : d'.markers = d.markers)
    (parked : d'.parked = d.parked) (calls : d'.calls = d.calls) (steady : d.Steady d')
    (balance : e ≠ .mended → d'.isOpen = true → d.Balance [e] d') : d.Step e d' where
  held job mem := by
    rw [drops] at mem
    cases mem
  free job mem := by
    rw [taken] at mem
    cases mem
  replies a mem := by
    rw [answers] at mem
    cases mem
  markers := by rw [remark, markers]
  waiting := by
    rw [answers, taken, Desk.waiting, Desk.waiting, parked, calls]
    simp
  steady := steady
  balance := balance

theorem step_shut (h : d.Shut d') : d.Step .aside d' := by
  refine .plain rfl rfl rfl (fun _ => rfl) h.markers h.parked h.calls h.steady fun _ isOpen => ?_
  rw [h.isOpen] at isOpen
  cases isOpen

theorem step_mended (markers : d'.markers = d.markers) (parked : d'.parked = d.parked)
    (calls : d'.calls = d.calls) (steady : d.Steady d') : d.Step .mended d' :=
  .plain rfl rfl rfl (fun _ => rfl) markers parked calls steady fun same => absurd rfl same

theorem step_aside (d : Desk) : d.Step .aside { d with isReady := true } :=
  .plain rfl rfl rfl (fun _ => rfl) rfl rfl rfl (.of_eq rfl rfl rfl rfl) fun _ isOpen =>
    ⟨isOpen, fun _ => rfl, by simp, fun _ => by simp [queue], by simp, by simp⟩

/-! ## Messages that come and go -/

theorem step_arrived (d : Desk) (m : Message) :
    d.Step (.arrived m) { d with inbox := d.inbox ++ [m] } :=
  .plain rfl rfl rfl (fun _ => rfl) rfl rfl rfl (.of_eq rfl rfl rfl rfl) fun _ isOpen =>
    ⟨isOpen, id, by simp, fun _ => by simp [queue], by simp, by simp⟩

theorem step_ordered (d : Desk) (c : Command) :
    d.Step (.ordered c) { d with commands := d.commands ++ [.next c] } :=
  .plain rfl rfl rfl (fun _ => rfl) rfl rfl rfl (.of_eq rfl rfl rfl rfl) fun _ isOpen =>
    ⟨isOpen, id, by simp, fun _ => by simp [queue], by simp, by simp⟩

theorem step_said (d : Desk) (m : Message) :
    d.Step (.said m) { d with outbox := d.outbox ++ [m] } :=
  .plain rfl rfl rfl (fun _ => rfl) rfl rfl rfl (.of_eq rfl rfl rfl rfl) fun _ isOpen =>
    ⟨isOpen, id, by simp, fun _ => by simp [queue], by simp, by simp [← Multiset.coe_add]⟩

theorem step_read (d : Desk) : d.Step (.read d.outbox) { d with outbox := [] } :=
  .plain rfl rfl rfl (fun _ => rfl) rfl rfl rfl (.of_eq rfl rfl rfl rfl) fun _ isOpen =>
    ⟨isOpen, id, by simp, fun _ => by simp [queue], by simp, by simp⟩

/-! ## Messages that are shown to the lifecycle -/

/-- A request is queued for the workers, unless it is a call, which gets a thread of its own. -/
def ask (d : Desk) (job : Job) : Desk :=
  if job.kind = .invoke then { d with dials := d.dials ++ [job.message] }
  else { d with pool := { d.pool with queue := d.pool.queue ++ [.job job] } }

def present (d : Desk) (m : Message) : Desk := if d.isReady then m.job?.elim d d.ask else d

def forward (d : Desk) (c : Command) : Desk :=
  { d with outbox := d.outbox ++ if c.forward then [c.message] else [] }

theorem ask_eq (d : Desk) (job : Job) : ∃ pool dials, d.ask job = { d with pool, dials } ∧
    (d.Staffed → { d with pool, dials }.Staffed) ∧
      { d with pool, dials }.queue = d.queue + {job} := by
  obtain ⟨kind, m⟩ := job
  by_cases call : kind = .invoke
  · subst call
    refine ⟨d.pool, d.dials ++ [m], rfl, fun staffed => staffed.of_eq rfl rfl rfl, ?_⟩
    simp [queue, ← Multiset.coe_add, add_assoc]
  · refine ⟨{ d.pool with queue := d.pool.queue ++ [.job ⟨kind, m⟩] }, d.dials, if_neg call,
      fun staffed => ⟨staffed.positive, staffed.whole, staffed.busy, fun order => ?_⟩, ?_⟩
    · rcases List.mem_append.1 order with order | order
      · exact staffed.goOn order
      · cases List.mem_singleton.1 order
    · simp only [queue, WorkerPool.jobs, List.filterMap_append, List.filterMap_cons, Task.job?,
        List.filterMap_nil, ← Multiset.coe_add, Multiset.coe_singleton]
      ac_rfl

/-- Only what is queued for the workers and for threads changes when a message is shown. -/
theorem present_eq (d : Desk) (m : Message) :
    ∃ pool dials, d.present m = { d with pool, dials } ∧ d.Steady (d.present m) ∧
      (d.isReady = true → (d.present m).queue = d.queue + ↑m.job?.toList) := by
  unfold present
  split
  · cases m.job? with
    | none => exact ⟨d.pool, d.dials, rfl, .refl d, fun _ => by simp⟩
    | some job =>
      obtain ⟨pool, dials, same, staffed, queue⟩ := d.ask_eq job
      refine ⟨pool, dials, same, fun goesOn => ⟨?_, fun whole => ?_⟩, fun _ => ?_⟩
      · change (d.ask job).goesOn = true at goesOn
        rwa [same] at goesOn
      · show (d.ask job).Staffed
        rw [same]
        exact staffed whole
      · show (d.ask job).queue = _
        rw [same]
        exact queue
  · rename_i early
    exact ⟨d.pool, d.dials, rfl, .refl d, fun ready => absurd ready early⟩

theorem step_received {rest : List Message} (inbox : d.inbox = m :: rest) :
    d.Step (.received m) ({ d with inbox := rest }.present m) := by
  obtain ⟨pool, dials, same, steady, queue⟩ := present_eq { d with inbox := rest } m
  have before : d.Steady { d with inbox := rest } := .of_eq rfl rfl rfl rfl
  refine .plain rfl rfl rfl (fun _ => rfl) (by rw [same]) (by rw [same]) (by rw [same])
    (before.trans steady) fun _ isOpen => ⟨?_, ?_, ?_, fun ready => ?_, ?_, ?_⟩
  · rw [same] at isOpen
    exact isOpen
  · rw [same]
    exact id
  · simp [same, inbox]
  · simp only [List.flatMap_cons, List.flatMap_nil, Minute.drops, Minute.taken, Minute.asked]
    rw [queue ready]
    simp [Desk.queue]
  · simp [same]
  · simp [same]

theorem step_handed (d : Desk) (m : Message) : d.Step (.handed m) (d.present m) := by
  obtain ⟨pool, dials, same, steady, queue⟩ := d.present_eq m
  refine .plain rfl rfl rfl (fun _ => rfl) (by rw [same]) (by rw [same]) (by rw [same]) steady
    fun _ isOpen => ⟨?_, ?_, ?_, fun ready => ?_, ?_, ?_⟩
  · rw [same] at isOpen
    exact isOpen
  · rw [same]
    exact id
  · simp [same]
  · simp [queue ready]
  · simp [same]
  · simp [same]

theorem step_shown {rest : List Instruction} (commands : d.commands = .next c :: rest) :
    d.Step (.shown c) (({ d with commands := rest }.present c.message).forward c) := by
  obtain ⟨pool, dials, same, steady, queue⟩ := present_eq { d with commands := rest } c.message
  have before : d.Steady { d with commands := rest } := .of_eq rfl rfl rfl rfl
  have after : ({ d with commands := rest }.present c.message).Steady
      (({ d with commands := rest }.present c.message).forward c) := .of_eq rfl rfl rfl rfl
  refine .plain rfl rfl rfl (fun _ => rfl) (by rw [same]; rfl) (by rw [same]; rfl)
    (by rw [same]; rfl) ((before.trans steady).trans after)
    fun _ isOpen => ⟨?_, ?_, ?_, fun ready => ?_, ?_, ?_⟩
  · rw [same] at isOpen
    exact isOpen
  · rw [same]
    exact id
  · simp [same, forward]
  · have asks : (({ d with commands := rest }.present c.message).forward c).queue =
        { d with commands := rest }.queue + (↑c.message.job?.toList : Multiset Job) := queue ready
    simp only [List.flatMap_cons, List.flatMap_nil, Minute.drops, Minute.taken, Minute.asked]
    rw [asks]
    simp [Desk.queue]
  · simp [same, forward, commands]
  · cases asked : c.forward
    all_goals simp [same, forward, asked, ← Multiset.coe_add]

/-- It makes no difference to a step what else is sent. -/
theorem Step.forward (h : d.Step e d') (c : Command) : (d.forward c).Step e (d'.forward c) where
  held := h.held
  free := h.free
  replies := h.replies
  markers := h.markers
  waiting := h.waiting
  steady := by
    have before : (d.forward c).Steady d := .of_eq rfl rfl rfl rfl
    have after : d'.Steady (d'.forward c) := .of_eq rfl rfl rfl rfl
    exact (before.trans h.steady).trans after
  balance plain isOpen := by
    have balance := h.balance plain isOpen
    refine ⟨balance.isOpen, balance.isReady, balance.inbox, balance.queue, balance.commands, ?_⟩
    have outbox := balance.outbox
    simp only [Desk.forward, ← Multiset.coe_add]
    rw [← add_assoc, outbox]
    ac_rfl

theorem Trail.forward {es : List Minute} (h : Trail d es d') (c : Command) :
    Trail (d.forward c) es (d'.forward c) := by
  induction h with
  | nil => exact .nil _
  | cons step _ ih => exact .cons (step.forward c) ih

/-! ## Requests that are taken up -/

/-- A request is taken out of what is queued, which leaves the workers as they were. -/
structure Consumes (d : Desk) (job : Job) (pool : WorkerPool Job) (dials : List Message) : Prop where
  queue : {job} + { d with pool, dials }.queue = d.queue
  staffed : d.Staffed → { d with pool, dials }.Staffed

section Consumes

variable {pool : WorkerPool Job} {dials : List Message}

theorem Consumes.steady (h : d.Consumes job pool dials) : d.Steady { d with pool, dials } :=
  fun goesOn => ⟨goesOn, h.staffed⟩

theorem consumes_take {p' : WorkerPool Job} (taken : d.pool.take = some (.job job, p')) :
    d.Consumes job (p'.finish job) d.dials := by
  obtain ⟨queue, _, _⟩ := WorkerPool.take_eq_some_job taken
  obtain ⟨idle, busy⟩ := WorkerPool.finish_of_take taken
  refine ⟨?_, fun staffed => ⟨staffed.positive, ?_, busy.trans staffed.busy, fun order => ?_⟩⟩
  · simp only [Desk.queue, WorkerPool.jobs, WorkerPool.queue_finish, queue, List.filterMap_cons,
      Task.job?]
    rw [← add_assoc]
    rfl
  · rw [idle]
    exact staffed.whole
  · refine staffed.goOn ?_
    rw [queue]
    exact List.mem_cons_of_mem _ (WorkerPool.queue_finish p' job ▸ order)

/-- A call takes no worker up. -/
theorem consumes_dial (spawned : m ∈ d.dials) :
    d.Consumes ⟨.invoke, m⟩ d.pool (d.dials.erase m) := by
  refine ⟨?_, fun staffed => staffed.of_eq rfl rfl rfl⟩
  have split : (d.dials.map (Job.mk .invoke)).Perm
      (⟨.invoke, m⟩ :: (d.dials.erase m).map (Job.mk .invoke)) :=
    (List.perm_cons_erase spawned).map _
  simp only [Desk.queue, Multiset.coe_eq_coe.2 split, ← Multiset.cons_coe]
  rw [← Multiset.singleton_add]
  ac_rfl

theorem step_dropped (consumes : d.Consumes job pool dials) (held : job.key ∈ d.markers) :
    d.Step (.dropped job) { d with pool, dials } where
  held := by simpa using held
  free := by simp
  replies := by simp
  markers := rfl
  waiting := by simp [waiting]
  steady := consumes.steady
  balance _ isOpen :=
    ⟨isOpen, id, by simp, fun _ => by simpa using consumes.queue, by simp, by simp⟩

def reply (d : Desk) (kind : RequestKind) (r : Message) : Desk :=
  match kind.route with
  | .direct => { d with outbox := d.outbox ++ [r] }
  | .outbound => { d with commands := d.commands ++ [.next { message := r, forward := true }] }

/-- An answer changes what is queued or sent, and nothing else. -/
theorem reply_eq (d : Desk) (kind : RequestKind) (r : Message) : ∃ commands outbox,
    d.reply kind r = { d with commands, outbox } ∧
      commands = d.commands ++ (if kind.route = .outbound then
        [.next { message := r, forward := true }] else []) ∧
      outbox = d.outbox ++ if kind.route = .direct then [r] else [] := by
  unfold reply
  cases kind.route with
  | direct => exact ⟨d.commands, _, rfl, by simp, by simp⟩
  | outbound => exact ⟨_, d.outbox, rfl, by simp, by simp⟩

theorem steady_reply (d : Desk) (kind : RequestKind) (r : Message) : d.Steady (d.reply kind r) := by
  obtain ⟨commands, outbox, replied, _⟩ := d.reply_eq kind r
  rw [replied]
  exact .of_eq rfl rfl rfl rfl

theorem balance_reply {es : Minute} (drops : es.drops = []) (asked : es.asked = [])
    (arrivals : es.arrivals = []) (receipts : es.receipts = []) (shows : es.shows = [])
    (orders : es.orders = []) (speech : es.speech = []) (reads : es.reads = [])
    (answers : es.answers = [(job, r)]) (isOpen : d.isOpen = true)
    (queue : ↑es.taken + d₁.queue = d.queue)
    (same : d₁ =
      { d with
        pool := d₁.pool, dials := d₁.dials, parked := d₁.parked, calls := d₁.calls
        markers := d₁.markers }) :
    d.Balance [es] (d₁.reply job.kind r) := by
  obtain ⟨commands, outbox, replied, queued, sent⟩ := d₁.reply_eq job.kind r
  rw [replied]
  have inbox : d₁.inbox = d.inbox := by rw [same]
  have before : d₁.commands = d.commands := by rw [same]
  have outboxBefore : d₁.outbox = d.outbox := by rw [same]
  have isReady : d₁.isReady = d.isReady := by rw [same]
  refine ⟨isOpen, fun ready => isReady.trans ready, ?_, fun _ => ?_, ?_, ?_⟩
  · simp only [List.flatMap_singleton, receipts, arrivals, inbox]
    exact (List.append_nil _).symm
  · simp only [List.flatMap_singleton, drops, asked]
    exact (congrArg (· + _) (zero_add _)).trans (queue.trans (add_zero _).symm)
  · have whole : es.queued = if job.kind.route = .outbound then
        [{ message := r, forward := true }] else [] := by
      unfold Minute.queued
      rw [orders, answers]
      cases route : job.kind.route
      all_goals simp [route]
    simp only [List.flatMap_singleton, shows, whole]
    rw [queued, before]
    cases job.kind.route
    all_goals rfl
  · have whole : es.sent = if job.kind.route = .direct then [r] else [] := by
      unfold Minute.sent
      rw [shows, answers, speech]
      cases route : job.kind.route
      all_goals simp [route]
    simp only [List.flatMap_singleton, reads, whole]
    rw [sent, outboxBefore, ← Multiset.coe_add]
    exact zero_add _

theorem step_answered (result : Except SessionError Bytes)
    (consumes : d.Consumes job pool dials) (free : job.key ∉ d.markers) :
    d.Step (.answered job (Node.reply job.message result))
      ({ d with pool, dials }.reply job.kind (Node.reply job.message result)) where
  held := by simp
  free := by simpa using free
  replies := by simp
  markers := by
    obtain ⟨commands, outbox, replied, _⟩ :=
      { d with pool, dials }.reply_eq job.kind (Node.reply job.message result)
    rw [replied]
    rfl
  waiting := by
    obtain ⟨commands, outbox, replied, _⟩ :=
      { d with pool, dials }.reply_eq job.kind (Node.reply job.message result)
    rw [replied, add_comm]
    rfl
  steady := consumes.steady.trans (steady_reply _ _ _)
  balance _ isOpen := by
    obtain ⟨commands, outbox, replied, _⟩ :=
      { d with pool, dials }.reply_eq job.kind (Node.reply job.message result)
    rw [replied] at isOpen
    exact balance_reply rfl rfl rfl rfl rfl rfl rfl rfl rfl isOpen consumes.queue rfl

theorem step_calls (consumes : d.Consumes job pool dials)
    (free : job.key ∉ d.markers) : d.Step (.waits job)
      { d with pool, dials, markers := job.key :: d.markers, calls := d.calls ++ [job] } where
  held := by simp
  free := by simpa using free
  replies := by simp
  markers := rfl
  waiting := by simp [Desk.waiting, ← Multiset.coe_add, add_assoc]
  steady := consumes.steady.trans (.of_eq rfl rfl rfl rfl)
  balance _ isOpen :=
    ⟨isOpen, id, by simp, fun _ => by simpa [Desk.queue] using consumes.queue, by simp, by simp⟩

end Consumes

/-- A read waits for its key, and holds its worker up. -/
theorem step_parks {pool : WorkerPool Job} {p : ParkedRead}
    (taken : d.pool.take = some (.job p.job, pool)) (free : p.job.key ∉ d.markers) :
    d.Step (.waits p.job)
      { d with pool, markers := p.job.key :: d.markers, parked := d.parked ++ [p] } where
  held := by simp
  free := by simpa using free
  replies := by simp
  markers := rfl
  waiting := by
    simp only [Desk.waiting, List.map_append, List.map_singleton, ← Multiset.coe_add]
    simp only [Minute.answers, Minute.taken, List.map_nil, Multiset.coe_nil, zero_add]
    ac_rfl
  steady := by
    obtain ⟨queue, busy, idle⟩ := WorkerPool.take_eq_some_job taken
    refine fun goesOn => ⟨goesOn, fun staffed => ⟨staffed.positive, ?_, ?_, fun order => ?_⟩⟩
    · have whole := staffed.whole
      simp only [List.length_append, List.length_singleton]
      omega
    · rw [busy, List.map_append]
      exact staffed.busy.append_right _
    · exact staffed.goOn (queue ▸ List.mem_cons_of_mem _ order)
  balance _ isOpen := by
    obtain ⟨queue, _, _⟩ := WorkerPool.take_eq_some_job taken
    refine ⟨isOpen, id, by simp, fun _ => ?_, by simp, by simp⟩
    simp only [Desk.queue, WorkerPool.jobs, queue, List.filterMap_cons, Task.job?]
    simp [add_assoc, ← Multiset.singleton_add, ← Multiset.cons_coe]

/-! ## Requests that waited -/

theorem step_resumed {p : ParkedRead} (result : Except SessionError Bytes) (mem : p ∈ d.parked) :
    d.Step (.returned p.job (Node.reply p.job.message result))
      ({ d with
        pool := d.pool.finish p.job, parked := d.parked.erase p
        markers := d.markers.filter (· != p.job.key) }.reply p.job.kind
          (Node.reply p.job.message result)) := by
  obtain ⟨commands, outbox, replied, _⟩ := reply_eq
    { d with
      pool := d.pool.finish p.job, parked := d.parked.erase p
      markers := d.markers.filter (· != p.job.key) } p.job.kind (Node.reply p.job.message result)
  have split : d.parked.Perm (p :: d.parked.erase p) := List.perm_cons_erase mem
  refine ⟨by simp, by simp, by simp, ?_, ?_, ?_, fun _ isOpen => ?_⟩
  · rw [replied]
    rfl
  · rw [replied]
    simp only [Minute.answers, Minute.taken, List.map_cons, List.map_nil, Multiset.coe_nil,
      add_zero, Desk.waiting, Multiset.coe_add]
    have jobs : (d.parked.map (·.job)).Perm (p.job :: (d.parked.erase p).map (·.job)) :=
      split.map (·.job)
    exact Multiset.coe_eq_coe.2 (jobs.symm.append_right d.calls)
  · have steady : d.Steady
        { d with
          pool := d.pool.finish p.job, parked := d.parked.erase p
          markers := d.markers.filter (· != p.job.key) } := by
      refine fun goesOn => ⟨goesOn, fun staffed => ?_⟩
      have there : p.job ∈ d.pool.busy := staffed.busy.mem_iff.2 (List.mem_map_of_mem mem)
      obtain ⟨idle, busy⟩ := WorkerPool.finish_of_mem there
      refine ⟨staffed.positive, ?_, ?_, fun order => ?_⟩
      · have whole := staffed.whole
        have length := split.length_eq
        rw [List.length_cons] at length
        simp only [idle]
        omega
      · simp only [busy]
        have rest := (staffed.busy.trans (split.map (·.job))).erase p.job
        rwa [List.map_cons, List.erase_cons_head] at rest
      · exact staffed.goOn (WorkerPool.queue_finish d.pool p.job ▸ order)
    exact steady.trans (steady_reply _ _ _)
  · rw [replied] at isOpen
    refine balance_reply rfl rfl rfl rfl rfl rfl rfl rfl rfl isOpen ?_ rfl
    simp [Desk.queue, WorkerPool.jobs, WorkerPool.queue_finish]

theorem step_returned {calls : List Job} (result : Except SessionError Bytes)
    (split : d.calls.Perm (job :: calls)) :
    d.Step (.returned job (Node.reply job.message result))
      ({ d with calls, markers := d.markers.filter (· != job.key) }.reply job.kind
        (Node.reply job.message result)) := by
  obtain ⟨commands, outbox, replied, _⟩ := reply_eq
    { d with calls, markers := d.markers.filter (· != job.key) } job.kind
      (Node.reply job.message result)
  refine ⟨by simp, by simp, by simp, ?_, ?_, ?_, fun _ isOpen => ?_⟩
  · rw [replied]
    rfl
  · rw [replied]
    simp only [Minute.answers, Minute.taken, List.map_cons, List.map_nil, Multiset.coe_nil,
      add_zero, Desk.waiting, Multiset.coe_add]
    have moved : (job :: (d.parked.map (·.job) ++ calls)).Perm
        (d.parked.map (·.job) ++ job :: calls) := List.perm_middle.symm
    exact Multiset.coe_eq_coe.2 (moved.trans (split.symm.append_left _))
  · have steady : d.Steady { d with calls, markers := d.markers.filter (· != job.key) } :=
      .of_eq rfl rfl rfl rfl
    exact steady.trans (steady_reply _ _ _)
  · rw [replied] at isOpen
    exact balance_reply rfl rfl rfl rfl rfl rfl rfl rfl rfl isOpen (by simp [Desk.queue]) rfl

end Desk

end ContractNode
