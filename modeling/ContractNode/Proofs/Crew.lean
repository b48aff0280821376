import ContractNode.Session.WorkerPool
import Mathlib.Data.List.Induction
import Mathlib.Data.List.Nodup
import Mathlib.Data.List.TakeWhile

/-!
# What becomes of the jobs of a pool

The workers of a pool take what is queued whenever they come to it, and each of them stops at the
first order to stop that it takes. In whatever order this happens, what went into the queue comes
out of it in the same order. So nobody takes an order to stop before the jobs in front of it are
taken, and whoever took one of these stops only after it has run to its end.

* `Worker`, `Crew` : where a worker is, and a pool together with its workers;
* `WorkerPool.order` : a part of a shutdown;
* `Crew.Event`, `Crew.Step`, `Crew.Runs` : what may happen, one thing after the other;
* `Crew.offered`, `accepted`, `early`, `taken`, `finished` : what is read off a list of events;
* `Crew.Manned` : the pool counts its workers as they are, whatever they do (`Manned.step`);
* `Step.queue`, `Runs.queue` : what went into the queue is what was taken out of it and what is left;
* `Step.running`, `Runs.running` : what was taken has run to its end or is under way;
* `Runs.early_taken`, `Runs.progress` : how workers come to stop;
* `finished_of_runs` : what has run, and in which order, after any events.
-/

namespace ContractNode

/-- Where a worker of a pool is. -/
inductive Worker (α : Type)
  /-- It waits for a task, or is about to. -/
  | waiting
  | running (a : α)
  | stopped
deriving DecidableEq, Repr

/-- The job that a worker has taken and not finished. -/
@[simp] def Worker.job? {α : Type} : Worker α → Option α
  | .running a => some a
  | _ => none

def Task.job? {α : Type} : Task α → Option α
  | .job a => some a
  | .stop => none

theorem Worker.filterMap_job? {α : Type} (x : Worker α) :
    [x].filterMap Worker.job? = x.job?.toList := by
  cases x <;> rfl

namespace WorkerPool

variable {α : Type}

/-- Some orders to stop are queued: those of a shutdown, or as many of them as are queued before a
worker comes between. -/
def order (p : WorkerPool α) (stops : Nat) : WorkerPool α :=
  if p.isAlive then { p with queue := p.queue ++ List.replicate stops .stop } else p

theorem shutdown_eq_order (p : WorkerPool α) : p.shutdown = p.order p.size := rfl

theorem submit_snd (p : WorkerPool α) (a : α) :
    (p.submit a).2 = { p with queue := p.queue ++ if p.isAlive then [.job a] else [] } := by
  unfold submit
  split <;> simp_all

theorem finish_of_mem [BEq α] [LawfulBEq α] {p : WorkerPool α} {a : α} (mem : a ∈ p.busy) :
    (p.finish a).idle = p.idle + 1 ∧ (p.finish a).busy = p.busy.erase a := by
  rw [finish, if_pos (List.contains_iff_mem.2 mem)]
  exact ⟨rfl, rfl⟩

theorem order_eq (p : WorkerPool α) (k : Nat) :
    p.order k = { p with queue := p.queue ++ if p.isAlive then List.replicate k .stop else [] } := by
  unfold order
  split <;> simp_all

end WorkerPool

/-- A pool together with its workers. -/
structure Crew (α : Type) where
  pool : WorkerPool α
  workers : List (Worker α)

namespace Crew

variable {α : Type}

/-- A pool whose workers have not taken anything yet. -/
def ofSize (size : Nat) : Crew α := ⟨.ofSize size, .replicate size .waiting⟩

def running (c : Crew α) : List α := c.workers.filterMap Worker.job?

/-- One thing that happens to a pool or that a worker does. -/
inductive Event (α : Type)
  /-- A job is submitted, and accepted or not. -/
  | submitted (a : α) (accepted : Bool)
  /-- Some orders to stop are given, and queued unless nobody is left to stop. -/
  | ordered (stops : Nat) (queued : Bool)
  | took (worker : Nat) (a : α)
  | finished (worker : Nat) (a : α)
  /-- A worker takes an order to stop. -/
  | quit (worker : Nat)
deriving DecidableEq, Repr

namespace Event

@[simp] def offered? : Event α → Option α
  | .submitted a _ => some a
  | _ => none

@[simp] def accepted? : Event α → Option α
  | .submitted a true => some a
  | _ => none

@[simp] def taken? : Event α → Option α
  | .took _ a => some a
  | _ => none

@[simp] def finished? : Event α → Option α
  | .finished _ a => some a
  | _ => none

/-- A shutdown is under way. -/
@[simp] def isOrder : Event α → Bool
  | .ordered .. => true
  | _ => false

/-- A worker does something. -/
@[simp] def isWork : Event α → Bool
  | .took .. | .finished .. | .quit .. => true
  | _ => false

/-- What goes into the queue. -/
@[simp] def entering : Event α → List (Task α)
  | .submitted a true => [.job a]
  | .ordered stops true => List.replicate stops .stop
  | _ => []

/-- What is taken out of the queue. -/
@[simp] def leaving : Event α → List (Task α)
  | .took _ a => [.job a]
  | .quit _ => [.stop]
  | _ => []

end Event

/-! ## What is read off events -/

def offered (es : List (Event α)) : List α := es.filterMap Event.offered?

def accepted (es : List (Event α)) : List α := es.filterMap Event.accepted?

/-- The jobs that were submitted before the first shutdown. -/
def early (es : List (Event α)) : List α := offered (es.takeWhile fun e => !e.isOrder)

def taken (es : List (Event α)) : List α := es.filterMap Event.taken?

def finished (es : List (Event α)) : List α := es.filterMap Event.finished?

def entered (es : List (Event α)) : List (Task α) := es.flatMap Event.entering

def left (es : List (Event α)) : List (Task α) := es.flatMap Event.leaving

theorem entered_append (es es' : List (Event α)) : entered (es ++ es') = entered es ++ entered es' :=
  List.flatMap_append

theorem left_concat (es : List (Event α)) (e : Event α) : left (es ++ [e]) = left es ++ e.leaving := by
  simp [left]

theorem entered_concat (es : List (Event α)) (e : Event α) :
    entered (es ++ [e]) = entered es ++ e.entering := by
  simp [entered]

theorem offered_concat (es : List (Event α)) (e : Event α) :
    offered (es ++ [e]) = offered es ++ e.offered?.toList := by
  cases e <;> simp [offered]

theorem taken_concat (es : List (Event α)) (e : Event α) :
    taken (es ++ [e]) = taken es ++ e.taken?.toList := by
  cases e <;> simp [taken]

theorem finished_concat (es : List (Event α)) (e : Event α) :
    finished (es ++ [e]) = finished es ++ e.finished?.toList := by
  cases e <;> simp [finished]

/-- The jobs that were taken are those among what was taken out of the queue. -/
theorem filterMap_left (es : List (Event α)) : (left es).filterMap Task.job? = taken es := by
  rw [left, taken, List.filterMap_flatMap, List.filterMap_eq_flatMap_toList]
  congr 1
  funext e
  cases e <;> rfl

/-- The jobs that were accepted are those among what went into the queue. -/
theorem filterMap_entered (es : List (Event α)) :
    (entered es).filterMap Task.job? = accepted es := by
  rw [entered, accepted, List.filterMap_flatMap, List.filterMap_eq_flatMap_toList]
  congr 1
  funext e
  cases e with
  | submitted a accepted => cases accepted <;> rfl
  | ordered stops queued => cases queued <;> simp [Task.job?]
  | _ => rfl

theorem accepted_sublist (es : List (Event α)) : (accepted es).Sublist (offered es) := by
  have among : accepted es = (es.filter (·.accepted?.isSome)).filterMap Event.offered? := by
    rw [accepted, List.filterMap_filter]
    congr 1
    funext e
    cases e with
    | submitted a accepted => cases accepted <;> rfl
    | _ => rfl
  rw [among]
  exact List.filter_sublist.filterMap _

/-! ## What may happen -/

variable [DecidableEq α] {c c' : Crew α} {e : Event α} {es es' : List (Event α)}

/-- One thing that may happen to a pool and its workers. A worker takes a task when it waits, and
finishes the job that it has taken. -/
inductive Step : Crew α → Event α → Crew α → Prop
  | submit (c : Crew α) (a : α) :
      Step c (.submitted a (c.pool.submit a).1) { c with pool := (c.pool.submit a).2 }
  | shutdown (c : Crew α) :
      Step c (.ordered c.pool.size c.pool.isAlive) { c with pool := c.pool.shutdown }
  | order (c : Crew α) (stops : Nat) :
      Step c (.ordered stops c.pool.isAlive) { c with pool := c.pool.order stops }
  | take {c : Crew α} {w : Nat} {a : α} {p : WorkerPool α} (waits : c.workers[w]? = some .waiting)
      (next : c.pool.take = some (.job a, p)) :
      Step c (.took w a) ⟨p, c.workers.set w (.running a)⟩
  | quit {c : Crew α} {w : Nat} {p : WorkerPool α} (waits : c.workers[w]? = some .waiting)
      (next : c.pool.take = some (.stop, p)) :
      Step c (.quit w) ⟨p, c.workers.set w .stopped⟩
  | finish {c : Crew α} {w : Nat} {a : α} (runs : c.workers[w]? = some (.running a)) :
      Step c (.finished w a) ⟨c.pool.finish a, c.workers.set w .waiting⟩

inductive Runs (start : Crew α) : List (Event α) → Crew α → Prop
  | nil : Runs start [] start
  | snoc {c c' : Crew α} {e : Event α} {es : List (Event α)} (before : Runs start es c)
      (step : Step c e c') : Runs start (es ++ [e]) c'

/-! ## Workers -/

/-- When a worker becomes something else, the workers are what they were but for this one. -/
theorem perm_set {workers : List (Worker α)} {w : Nat} {x : Worker α}
    (there : workers[w]? = some x) (y : Worker α) :
    (workers.set w y ++ [x]).Perm (workers ++ [y]) := by
  obtain ⟨short, found⟩ := List.getElem?_eq_some_iff.1 there
  obtain ⟨before, after, whole, _, replaced⟩ := List.exists_of_set short
  rw [found] at whole
  rw [replaced, whole, List.perm_iff_count]
  intro z
  simp only [List.count_append, List.count_cons]
  omega

theorem count_set {workers : List (Worker α)} {w : Nat} {x : Worker α}
    (there : workers[w]? = some x) (y z : Worker α) :
    (workers.set w y).count z + [x].count z = workers.count z + [y].count z := by
  have count := (perm_set there y).count_eq z
  rwa [List.count_append, List.count_append] at count

theorem running_set {w : Nat} {x : Worker α} (there : c.workers[w]? = some x) (y : Worker α)
    (p : WorkerPool α) :
    (running ⟨p, c.workers.set w y⟩ ++ x.job?.toList).Perm (c.running ++ y.job?.toList) := by
  have under := (perm_set there y).filterMap Worker.job?
  rwa [List.filterMap_append, List.filterMap_append, Worker.filterMap_job?,
    Worker.filterMap_job?] at under

/-- The pool counts its workers as they are. -/
structure Manned (c : Crew α) : Prop where
  size : c.pool.size = c.workers.length
  idle : c.pool.idle = c.workers.count .waiting
  busy : c.pool.busy.Perm c.running

omit [DecidableEq α] in
theorem running_ofSize (size : Nat) : (ofSize size : Crew α).running = [] := by
  simp [ofSize, running]

theorem manned_ofSize (size : Nat) : (ofSize size : Crew α).Manned where
  size := (List.length_replicate ..).symm
  idle := (List.count_replicate_self ..).symm
  busy := .of_eq (running_ofSize size).symm

theorem Manned.queue (h : c.Manned) (queue : List (Task α)) :
    Manned { c with pool := { c.pool with queue } } := ⟨h.size, h.idle, h.busy⟩

/-- The pool goes on counting right if it notes what becomes of a worker. -/
theorem Manned.set (h : c.Manned) {w : Nat} {x y : Worker α} {p : WorkerPool α}
    (there : c.workers[w]? = some x) (size : p.size = c.pool.size)
    (idle : p.idle + [x].count .waiting = c.pool.idle + [y].count .waiting)
    (busy : (p.busy ++ x.job?.toList).Perm (c.pool.busy ++ y.job?.toList)) :
    Manned ⟨p, c.workers.set w y⟩ := by
  refine ⟨?_, ?_, ?_⟩
  · rw [size, h.size, List.length_set]
  · have count := count_set there y .waiting
    rw [← h.idle, ← idle] at count
    exact (Nat.add_right_cancel count).symm
  · have under := running_set there y p
    exact (List.perm_append_right_iff _).1 (busy.trans ((h.busy.append_right _).trans under.symm))

theorem Manned.mem_busy (h : c.Manned) {w : Nat} {a : α} (runs : c.workers[w]? = some (.running a)) :
    a ∈ c.pool.busy :=
  h.busy.mem_iff.2 (List.mem_filterMap.2 ⟨_, List.mem_of_getElem? runs, rfl⟩)

theorem Manned.step (h : c.Manned) (step : Step c e c') : c'.Manned := by
  cases step with
  | submit a => rw [WorkerPool.submit_snd]; exact h.queue _
  | shutdown => rw [WorkerPool.shutdown_eq_order, WorkerPool.order_eq]; exact h.queue _
  | order stops => rw [WorkerPool.order_eq]; exact h.queue _
  | @take w a p waits next =>
    obtain ⟨_, busy, idle⟩ := WorkerPool.take_eq_some_job next
    exact h.set waits (WorkerPool.size_of_take next) (by simp [idle]) (by simp [busy])
  | @quit w p waits next =>
    obtain ⟨_, busy, idle⟩ := WorkerPool.take_eq_some_stop next
    exact h.set waits (WorkerPool.size_of_take next) (by simp [idle]) (by simp [busy])
  | @finish w a runs =>
    have mem := h.mem_busy runs
    obtain ⟨idle, busy⟩ := WorkerPool.finish_of_mem mem
    refine h.set runs (WorkerPool.size_finish ..) (by simp [idle]) ?_
    rw [busy]
    simpa using (List.perm_append_singleton ..).trans (List.perm_cons_erase mem).symm

theorem Manned.isAlive (h : c.Manned) (some : ∃ x ∈ c.workers, x ≠ .stopped) :
    c.pool.isAlive = true := by
  obtain ⟨x, mem, goesOn⟩ := some
  cases x with
  | waiting =>
    have idle : c.pool.idle ≠ 0 := h.idle ▸ Nat.ne_of_gt (List.count_pos_iff.2 mem)
    simp [WorkerPool.isAlive, idle]
  | running a =>
    have busy : a ∈ c.pool.busy := h.busy.mem_iff.2 (List.mem_filterMap.2 ⟨_, mem, rfl⟩)
    simp [WorkerPool.isAlive, List.ne_nil_of_mem busy]
  | stopped => exact absurd rfl goesOn

/-! ## What one event does -/

/-- What goes into the queue is put behind what is there, and what comes out of it was in front. -/
theorem Step.queue (step : Step c e c') :
    c.pool.queue ++ e.entering = e.leaving ++ c'.pool.queue := by
  cases step with
  | submit a =>
    rw [WorkerPool.submit_fst, WorkerPool.submit_snd]
    cases c.pool.isAlive <;> rfl
  | shutdown =>
    rw [WorkerPool.shutdown_eq_order, WorkerPool.order_eq]
    cases c.pool.isAlive <;> rfl
  | order stops =>
    rw [WorkerPool.order_eq]
    cases c.pool.isAlive <;> rfl
  | take _ next => simpa using (WorkerPool.take_eq_some_job next).1
  | quit _ next => simpa using (WorkerPool.take_eq_some_stop next).1
  | finish => simpa using (WorkerPool.queue_finish ..).symm

/-- What is taken is under way until it has run to its end. -/
theorem Step.running (step : Step c e c') :
    (c.running ++ e.taken?.toList).Perm (e.finished?.toList ++ c'.running) := by
  cases step with
  | submit | shutdown | order => exact .of_eq (List.append_nil _)
  | @take w a p waits _ => simpa using (running_set waits (.running a) p).symm
  | @quit w p waits _ => simpa using (running_set waits .stopped p).symm
  | @finish w a runs =>
    have under := (running_set runs .waiting (c.pool.finish a)).symm
    exact under.trans (List.perm_append_singleton ..)

theorem Step.stopped (step : Step c e c') :
    c'.workers.count .stopped = c.workers.count .stopped + e.leaving.count .stop := by
  cases step with
  | submit | shutdown | order => rfl
  | @take w a p waits _ => simpa using count_set waits (.running a) .stopped
  | @quit w p waits _ => simpa using count_set waits .stopped .stopped
  | @finish w a runs => simpa using count_set runs .waiting .stopped

/-! ## What any number of events do -/

section Runs

variable {start : Crew α}

theorem Runs.manned (run : Runs start es c) (manned : start.Manned) : c.Manned := by
  induction run with
  | nil => exact manned
  | snoc _ step ih => exact ih.step step

/-- What went into the queue comes out of it in the same order. -/
theorem Runs.queue (run : Runs start es c) :
    start.pool.queue ++ entered es = left es ++ c.pool.queue := by
  induction run with
  | nil => simp [entered, left]
  | snoc _ step ih =>
    rw [entered_concat, left_concat, ← List.append_assoc, ih, List.append_assoc, step.queue,
      List.append_assoc]

theorem Runs.running (run : Runs start es c) :
    (start.running ++ taken es).Perm (finished es ++ c.running) := by
  induction run with
  | nil => exact .of_eq (List.append_nil _)
  | snoc _ step ih =>
    rw [taken_concat, finished_concat, ← List.append_assoc, List.append_assoc (finished _)]
    refine (ih.append_right _).trans ?_
    rw [List.append_assoc]
    exact step.running.append_left _

theorem Runs.stopped (run : Runs start es c) :
    c.workers.count .stopped = start.workers.count .stopped + (left es).count .stop := by
  induction run with
  | nil => simp [left]
  | snoc _ step ih =>
    rw [step.stopped, ih, left_concat, List.count_append, Nat.add_assoc]

theorem Runs.length (run : Runs start es c) : c.workers.length = start.workers.length := by
  induction run with
  | nil => rfl
  | snoc _ step ih =>
    rw [← ih]
    cases step with
    | submit | shutdown | order => rfl
    | take | quit | finish => exact List.length_set

/-- What happened first is all that had happened at some point. -/
theorem Runs.of_append (run : Runs start (es ++ es') c) : ∃ c', Runs start es c' := by
  induction es' using List.reverseRecOn generalizing c with
  | nil => exact ⟨c, by rwa [List.append_nil] at run⟩
  | append_singleton es' e ih =>
    rw [← List.append_assoc] at run
    generalize all : es ++ es' ++ [e] = es'' at run
    cases run with
    | nil => simp at all
    | snoc before _ =>
      obtain ⟨rfl, _⟩ := List.append_inj' all rfl
      exact ih before

end Runs

/-! ## From the start -/

section Fresh

variable {size : Nat}

theorem Runs.left_append (run : Runs (ofSize size) es c) : left es ++ c.pool.queue = entered es :=
  run.queue.symm

theorem Runs.length_workers (run : Runs (ofSize size) es c) : c.workers.length = size :=
  run.length.trans (List.length_replicate ..)

theorem Runs.count_stopped (run : Runs (ofSize size) es c) :
    c.workers.count .stopped = (left es).count .stop := by
  rw [run.stopped, ofSize, List.count_replicate]
  exact Nat.zero_add _

/-- A worker stops only if an order to stop was queued. -/
theorem Runs.isAlive (positive : 0 < size) (run : Runs (ofSize size) es c)
    (none : .stop ∉ entered es) : c.pool.isAlive = true := by
  have goOn : .stopped ∉ c.workers := by
    rw [← List.count_eq_zero, run.count_stopped, List.count_eq_zero]
    exact fun mem => none (run.left_append ▸ List.mem_append_left _ mem)
  obtain ⟨x, mem⟩ := List.exists_mem_of_length_pos (run.length_workers ▸ positive)
  exact (run.manned (manned_ofSize size)).isAlive ⟨x, mem, fun same => goOn (same ▸ mem)⟩

/-- Before the first shutdown all jobs are accepted. -/
theorem Runs.entered_eq (positive : 0 < size) (run : Runs (ofSize size) es c)
    (calm : ∀ e ∈ es, e.isOrder = false) : entered es = (offered es).map .job := by
  induction run with
  | nil => rfl
  | @snoc c c' e es before step ih =>
    have ih := ih fun e' mem => calm e' (List.mem_append_left _ mem)
    have alive := before.isAlive positive (by simp [ih])
    have calm : e.isOrder = false := calm e (by simp)
    rw [entered_concat, offered_concat, ih, List.map_append]
    congr 1
    cases step with
    | submit a => rw [WorkerPool.submit_fst, alive]; rfl
    | shutdown | order => cases calm
    | take | quit | finish => rfl

/-- What goes into the queue begins with the jobs that are submitted before the first shutdown. -/
theorem Runs.early_prefix (positive : 0 < size) (run : Runs (ofSize size) es c) :
    (early es).map .job <+: entered es := by
  have calm : ∀ e ∈ es.takeWhile fun e => !e.isOrder, e.isOrder = false := fun e mem => by
    simpa using List.mem_takeWhile_imp mem
  have split := List.takeWhile_append_dropWhile (p := fun e : Event α => !e.isOrder) (l := es)
  rw [← split] at run
  obtain ⟨c', before⟩ := run.of_append
  refine ⟨entered (es.dropWhile fun e => !e.isOrder), ?_⟩
  rw [early, ← before.entered_eq positive calm, ← entered_append, split]

/-- Jobs are taken in the order in which they were accepted. -/
theorem Runs.taken_prefix (run : Runs (ofSize size) es c) : taken es <+: accepted es := by
  rw [← filterMap_left, ← filterMap_entered, ← run.left_append, List.filterMap_append]
  exact List.prefix_append ..

/-- Whoever takes an order to stop does so after all jobs were taken that had been submitted before
the first shutdown. -/
theorem Runs.early_taken (positive : 0 < size) (run : Runs (ofSize size) es c)
    (some : .stopped ∈ c.workers) : early es <+: taken es := by
  have stop : .stop ∈ left es := by
    rw [← List.count_pos_iff, ← run.count_stopped]
    exact List.count_pos_iff.2 some
  have first : left es <+: entered es := ⟨_, run.left_append⟩
  rcases List.prefix_or_prefix_of_prefix first (run.early_prefix positive) with short | long
  · have mem := short.subset stop
    simp at mem
  · have jobs := long.filterMap Task.job?
    rw [filterMap_left] at jobs
    simpa [List.filterMap_map, Function.comp_def, Task.job?] using jobs

/-- Workers that have all stopped have finished what they took. -/
theorem Runs.finished_perm (run : Runs (ofSize size) es c) (all : ∀ x ∈ c.workers, x = .stopped) :
    (taken es).Perm (finished es) := by
  have none : c.running = [] := List.filterMap_eq_nil_iff.2 fun x mem => all x mem ▸ rfl
  have under := run.running
  rwa [running_ofSize, none, List.nil_append, List.append_nil] at under

/-- Once an order to stop was queued for every worker, somebody has something to do until all have
stopped. -/
theorem Runs.progress (run : Runs (ofSize size) es c) (orders : size ≤ (entered es).count .stop) :
    (∀ x ∈ c.workers, x = .stopped) ∨ ∃ e c', e.isWork = true ∧ Step c e c' := by
  rw [or_iff_not_imp_left, not_forall]
  rintro ⟨x, unstopped⟩
  obtain ⟨mem, goesOn⟩ := Classical.not_imp.1 unstopped
  obtain ⟨w, there⟩ := List.mem_iff_getElem?.1 mem
  cases x with
  | running a => exact ⟨_, _, rfl, .finish there⟩
  | stopped => exact absurd rfl goesOn
  | waiting =>
    have idle : 0 < c.pool.idle := by
      rw [(run.manned (manned_ofSize size)).idle]
      exact List.count_pos_iff.2 mem
    cases next : c.pool.take with
    | some t =>
      obtain ⟨t, p⟩ := t
      cases t with
      | job a => exact ⟨_, _, rfl, .take there next⟩
      | stop => exact ⟨_, _, rfl, .quit there next⟩
    | none =>
      -- All orders to stop were taken, one by each worker, and so by the one that waits.
      have empty := WorkerPool.take_eq_none_iff.1 next idle
      rw [← run.left_append, empty, List.append_nil, ← run.count_stopped, ← run.length_workers]
        at orders
      have all := List.count_eq_length.1 (Nat.le_antisymm List.count_le_length orders)
      cases all _ mem

end Fresh

/-! ## All runs -/

/-- Whatever happens to a pool with workers, in whatever order: jobs are taken in the order in which
they were submitted and accepted, each one once, and whatever is taken is under way until it has run
to its end. When every worker has stopped, all jobs that were submitted before the first shutdown
have been accepted and taken, and what was taken has run to its end. So if jobs can be told apart,
none is taken or finished twice, and those before the first shutdown are finished once by then. And
when a shutdown has queued an order to stop for each worker, they have all stopped as soon as nobody
has anything to do. -/
theorem finished_of_runs {size : Nat} (positive : 0 < size) (run : Runs (ofSize size) es c) :
    (taken es <+: accepted es ∧ (accepted es).Sublist (offered es)) ∧
    (taken es).Perm (finished es ++ c.running) ∧
    ((∀ x ∈ c.workers, x = .stopped) → early es <+: taken es ∧ (taken es).Perm (finished es)) ∧
    ((offered es).Nodup → (taken es).Nodup ∧ (finished es).Nodup ∧
      ((∀ x ∈ c.workers, x = .stopped) → ∀ a ∈ early es, (finished es).count a = 1)) ∧
    (size ≤ (entered es).count .stop →
      (∀ x ∈ c.workers, x = .stopped) ∨ ∃ e c', e.isWork = true ∧ Step c e c') := by
  have order : taken es <+: accepted es := run.taken_prefix
  have under : (taken es).Perm (finished es ++ c.running) := by
    simpa only [running_ofSize, List.nil_append] using run.running
  have stopped (all : ∀ x ∈ c.workers, x = .stopped) :
      early es <+: taken es ∧ (taken es).Perm (finished es) := by
    obtain ⟨x, mem⟩ := List.exists_mem_of_length_pos (run.length_workers ▸ positive)
    exact ⟨run.early_taken positive (all x mem ▸ mem), run.finished_perm all⟩
  refine ⟨⟨order, accepted_sublist es⟩, under, stopped, fun apart => ?_, run.progress⟩
  have taken : (taken es).Nodup := (order.sublist.trans (accepted_sublist es)).nodup apart
  have finished : (finished es).Nodup := (List.nodup_append.1 (under.nodup_iff.1 taken)).1
  refine ⟨taken, finished, fun all a mem => ?_⟩
  obtain ⟨early, done⟩ := stopped all
  exact List.count_eq_one_of_mem finished (done.mem_iff.1 (early.subset mem))

/-- Two workers of which one is slow. The other takes a job between the two orders of a shutdown; then
comes a job that is too late, and another shutdown. -/
def overtime : List (Event Nat) :=
  [.submitted 1 true, .took 0 1, .submitted 2 true, .ordered 1 true, .took 1 2, .ordered 1 true,
    .submitted 3 true, .ordered 2 true, .finished 1 2, .quit 1, .finished 0 1, .quit 0]

theorem finished_of_runs_overtime :
    0 < 2 ∧
    (∃ c : Crew Nat, Runs (ofSize 2) (overtime.take 8) c ∧ .running 1 ∈ c.workers ∧
      2 ≤ (entered (overtime.take 8)).count .stop ∧ ∃ e c', e.isWork = true ∧ Step c e c') ∧
    ∃ c : Crew Nat, Runs (ofSize 2) overtime c ∧ (∀ x ∈ c.workers, x = .stopped) ∧
      (offered overtime).Nodup ∧ early overtime = [1, 2] ∧ early overtime <+: taken overtime ∧
      ∀ a ∈ [1, 2], (finished overtime).count a = 1 := by
  have fresh : Runs (ofSize 2) [] (ofSize 2 : Crew Nat) := .nil
  have begun : Runs (ofSize 2) (overtime.take 4)
      ⟨⟨2, [.job 2, .stop], 1, [1]⟩, [.running 1, .waiting]⟩ :=
    (((fresh.snoc (.submit _ 1)).snoc (.take (w := 0) rfl rfl)).snoc (.submit _ 2)).snoc (.order _ 1)
  have ordered : Runs (ofSize 2) (overtime.take 8)
      ⟨⟨2, [.stop, .stop, .job 3, .stop, .stop], 0, [1, 2]⟩, [.running 1, .running 2]⟩ :=
    (((begun.snoc (.take (w := 1) rfl rfl)).snoc (.order _ 1)).snoc (.submit _ 3)).snoc (.shutdown _)
  have run : Runs (ofSize 2) overtime
      ⟨⟨2, [.job 3, .stop, .stop], 0, []⟩, [.stopped, .stopped]⟩ :=
    (((ordered.snoc (.finish (w := 1) rfl)).snoc (.quit (w := 1) rfl rfl)).snoc
      (.finish (w := 0) rfl)).snoc (.quit (w := 0) rfl rfl)
  have orders : 2 ≤ (entered (overtime.take 8)).count .stop := by decide
  have stopped : ∀ x ∈ [Worker.stopped, .stopped], x = (.stopped : Worker Nat) := by decide
  have apart : (offered overtime).Nodup := by decide
  obtain ⟨_, _, _, _, progress⟩ := finished_of_runs (by decide) ordered
  obtain ⟨_, _, all, once, _⟩ := finished_of_runs (by decide) run
  have busy := (progress orders).resolve_left (by decide)
  exact ⟨by decide, ⟨_, ordered, by decide, orders, busy⟩, _, run, stopped, apart, rfl,
    (all stopped).1, (once apart).2.2 stopped⟩

end Crew

end ContractNode
