/-!
# Worker pools

A session's ledger requests run on a fixed number of workers, so that a slow one does not hold up
the messages behind it. The workers share one queue.

* `Task α` : what stands in the queue, a job or the order to stop;
* `WorkerPool α` : the queue, the number of idle workers, and the jobs under way;
* `WorkerPool.submit`, `WorkerPool.shutdown` : from outside;
* `WorkerPool.take`, `WorkerPool.finish` : what the workers do.
-/

namespace ContractNode

/-- What stands in the queue of a pool. -/
inductive Task (α : Type)
  | job (a : α)
  /-- Whoever takes this stops. -/
  | stop
deriving DecidableEq, Repr

/-- A fixed number of workers that share a queue. -/
structure WorkerPool (α : Type) where
  /-- The number of workers there were at the start. -/
  size : Nat
  queue : List (Task α) := []
  /-- How many workers wait for a task. -/
  idle : Nat
  /-- The jobs that workers have taken and not finished. -/
  busy : List α := []
deriving DecidableEq, Repr

namespace WorkerPool

variable {α : Type}

def ofSize (size : Nat) : WorkerPool α := { size, idle := size }

def isAlive (p : WorkerPool α) : Bool := p.idle != 0 || !p.busy.isEmpty

/-- Queues a job; gives `false` if every worker has stopped. -/
def submit (p : WorkerPool α) (a : α) : Bool × WorkerPool α :=
  if p.isAlive then (true, { p with queue := p.queue ++ [.job a] }) else (false, p)

/-- Orders every worker to stop once the jobs that are queued now have run. -/
def shutdown (p : WorkerPool α) : WorkerPool α :=
  if p.isAlive then { p with queue := p.queue ++ List.replicate p.size .stop } else p

/-- An idle worker takes the oldest task: a job, which is then under way, or the order to stop. -/
def take (p : WorkerPool α) : Option (Task α × WorkerPool α) :=
  match p.idle, p.queue with
  | idle + 1, .job a :: rest =>
    some (.job a, { p with queue := rest, idle := idle, busy := p.busy ++ [a] })
  | idle + 1, .stop :: rest => some (.stop, { p with queue := rest, idle := idle })
  | _, _ => none

def finish [BEq α] (p : WorkerPool α) (a : α) : WorkerPool α :=
  if p.busy.contains a then { p with idle := p.idle + 1, busy := p.busy.erase a } else p

theorem submit_fst (p : WorkerPool α) (a : α) : (p.submit a).1 = p.isAlive := by
  rw [submit]; split <;> simp_all

theorem queue_submit {p p' : WorkerPool α} {a : α} (h : p.submit a = (true, p')) :
    p'.queue = p.queue ++ [.job a] := by
  rw [submit] at h
  split at h
  · cases h; rfl
  · cases h

theorem size_of_take {p p' : WorkerPool α} {t : Task α} (h : p.take = some (t, p')) :
    p'.size = p.size := by
  rw [take] at h
  split at h
  · cases h; rfl
  · cases h; rfl
  · cases h

theorem size_finish [BEq α] (p : WorkerPool α) (a : α) : (p.finish a).size = p.size := by
  rw [finish]; split <;> rfl

theorem queue_finish [BEq α] (p : WorkerPool α) (a : α) : (p.finish a).queue = p.queue := by
  rw [finish]; split <;> rfl

theorem take_eq_some_job {p p' : WorkerPool α} {a : α} (h : p.take = some (.job a, p')) :
    p.queue = .job a :: p'.queue ∧ p'.busy = p.busy ++ [a] ∧ p.idle = p'.idle + 1 := by
  rw [take] at h
  split at h
  · rename_i idle _ _ hi hq
    cases h
    exact ⟨hq, rfl, hi⟩
  · cases h
  · cases h

theorem take_eq_some_stop {p p' : WorkerPool α} (h : p.take = some (.stop, p')) :
    p.queue = .stop :: p'.queue ∧ p'.busy = p.busy ∧ p.idle = p'.idle + 1 := by
  rw [take] at h
  split at h
  · cases h
  · rename_i idle _ hi hq
    cases h
    exact ⟨hq, rfl, hi⟩
  · cases h

/-- A worker takes nothing as long as none is idle, or nothing is queued. -/
theorem take_eq_none_iff {p : WorkerPool α} :
    p.take = none ↔ (0 < p.idle → p.queue = []) := by
  unfold take
  obtain ⟨size, queue, idle, busy⟩ := p
  cases idle with
  | zero => simp
  | succ idle =>
    cases queue with
    | nil => simp
    | cons t rest => cases t <;> simp

end WorkerPool

end ContractNode
