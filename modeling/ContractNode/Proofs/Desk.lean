import ContractNode.Proofs.Crew
import ContractNode.Proofs.Moves
import Mathlib.Algebra.Order.Group.Multiset
import Mathlib.Data.Multiset.Dedup

/-!
# The desk of a session

Seen from its contract, a session is a desk: messages arrive there, requests are taken up and
answered, and messages go out. Here is what happens at a desk, apart from how a node brings it
about.

* `Desk` : what of a session has to do with requests and answers;
* `Minute` : one thing that happens at a desk;
* `Desk.Step`, `Desk.Trail` : what a minute stands for, and any number of them in a row;
* `Desk.Balance` : the books of a desk that stays open, which `Trail.balance` keeps;
* `Desk.Marked` : the markers of a desk are those of the requests that wait (`Trail.marked`).
-/

namespace ContractNode

/-- The requests that no worker has taken yet. -/
def WorkerPool.jobs (p : WorkerPool Job) : Multiset Job := ↑(p.queue.filterMap Task.job?)

def Job.key (job : Job) : String := job.message.key

/-- What of a session has to do with requests and answers. -/
structure Desk where
  /-- Whatever is queued is sent in the end, and whatever is sent reaches the contract. -/
  isOpen : Bool
  /-- The workers have not been told to stop. -/
  goesOn : Bool
  isReady : Bool
  /-- What has arrived from the contract. -/
  inbox : List Message
  commands : List Instruction
  /-- What was sent to the contract and not read by it yet. -/
  outbox : List Message
  pool : WorkerPool Job
  dials : List Message
  workers : Nat
  parked : List ParkedRead
  /-- The requests whose calls have not returned. -/
  calls : List Job
  markers : List String

/-- Whether what is queued and sent on a session can reach its contract. -/
def Session.isOpen (ses : Session) : Bool :=
  ses.outbound != .stopped && !ses.link.broken && !ses.link.outbox.closed &&
    !ses.link.outbox.abandoned

def Session.desk (ses : Session) (calls : List Job) : Desk where
  isOpen := ses.isOpen
  goesOn := !ses.link.outbox.closed
  isReady := ses.phase == .ready
  inbox := ses.link.inbox.queue.filterMap Except.toOption
  commands := ses.commands
  outbox := ses.link.outbox.queue
  pool := ses.pool
  dials := ses.dials
  workers := ses.config.workers
  parked := ses.parked
  calls := calls
  markers := ses.transactions.markers

/-- One thing that happens at a desk. -/
inductive Minute
  /-- The contract sends a message. -/
  | arrived (m : Message)
  /-- The inbound loop shows a message to the lifecycle. -/
  | received (m : Message)
  /-- Somebody from outside does so. -/
  | handed (m : Message)
  /-- The outbound loop does so, and forwards the message if asked to. -/
  | shown (c : Command)
  /-- A command is queued that answers nothing. -/
  | ordered (c : Command)
  /-- A message is sent that answers nothing, past the outbound loop. -/
  | said (m : Message)
  /-- The contract reads what was sent. -/
  | read (ms : List Message)
  /-- A request is not taken up, since its transaction has one under way. -/
  | dropped (job : Job)
  /-- A request is taken up and answered. -/
  | answered (job : Job) (r : Message)
  /-- A request is taken up, and waits for its key or for a call. -/
  | waits (job : Job)
  /-- A request that waited is answered. -/
  | returned (job : Job) (r : Message)
  /-- The connection is made, or repaired. -/
  | mended
  | aside
deriving DecidableEq

namespace Minute

/-- What the contract sends. -/
@[simp] def arrivals : Minute → List Message
  | .arrived m => [m]
  | _ => []

/-- What the inbound loop receives. -/
@[simp] def receipts : Minute → List Message
  | .received m => [m]
  | _ => []

/-- The requests that a ready lifecycle is shown. -/
@[simp] def asked : Minute → List Job
  | .received m | .handed m => m.job?.toList
  | .shown c => c.message.job?.toList
  | _ => []

@[simp] def drops : Minute → List Job
  | .dropped job => [job]
  | _ => []

/-- The requests that are taken up. -/
@[simp] def taken : Minute → List Job
  | .answered job _ | .waits job => [job]
  | _ => []

/-- The requests that are answered, with their answers. -/
@[simp] def answers : Minute → List (Job × Message)
  | .answered job r | .returned job r => [(job, r)]
  | _ => []

/-- What the outbound loop shows and forwards. -/
@[simp] def shows : Minute → List Command
  | .shown c => [c]
  | _ => []

/-- What is queued for the outbound loop and answers nothing. -/
@[simp] def orders : Minute → List Command
  | .ordered c => [c]
  | _ => []

/-- What is sent past the outbound loop and answers nothing. -/
@[simp] def speech : Minute → List Message
  | .said m => [m]
  | _ => []

@[simp] def reads : Minute → List Message
  | .read ms => ms
  | _ => []

/-- What is queued for the outbound loop: orders, and the answers that take that way. -/
@[simp] def queued (e : Minute) : List Command :=
  e.orders ++ (e.answers.filter fun a => a.1.kind.route = .outbound).map fun a =>
    { message := a.2, forward := true }

/-- What is sent to the contract: what the outbound loop forwards, the answers that go straight out,
and what else is said. -/
@[simp] def sent (e : Minute) : List Message :=
  (e.shows.filter (·.forward)).map (·.message) ++
    (e.answers.filter fun a => a.1.kind.route = .direct).map Prod.snd ++ e.speech

/-- The markers after a minute. -/
@[simp] def remark : Minute → List String → List String
  | .waits job, ms => job.key :: ms
  | .returned job _, ms => ms.filter (· != job.key)
  | _, ms => ms

end Minute

namespace Desk

/-- The requests that no worker has taken yet, and no thread of their own. -/
def queue (d : Desk) : Multiset Job := d.pool.jobs + ↑(d.dials.map (Job.mk .invoke))

/-- The requests that wait for their key, or for a call. -/
def waiting (d : Desk) : Multiset Job := ↑(d.parked.map (·.job) ++ d.calls)

/-- There are workers, and each of them is idle or held up by a read that waits for its key. -/
structure Staffed (d : Desk) : Prop where
  positive : 0 < d.workers
  whole : d.pool.idle + d.parked.length = d.workers
  busy : d.pool.busy.Perm (d.parked.map (·.job))
  goOn : .stop ∉ d.pool.queue

/-- The books of a desk between two points at which it is open. What comes in and what is there
before is what goes out and what is there after. -/
structure Balance (d : Desk) (es : List Minute) (d' : Desk) : Prop where
  isOpen : d.isOpen = true
  isReady : d.isReady = true → d'.isReady = true
  inbox : es.flatMap Minute.receipts ++ d'.inbox = d.inbox ++ es.flatMap Minute.arrivals
  queue : d.isReady = true →
    ↑(es.flatMap Minute.drops) + ↑(es.flatMap Minute.taken) + d'.queue =
      d.queue + ↑(es.flatMap Minute.asked)
  commands : (es.flatMap Minute.shows).map .next ++ d'.commands =
    d.commands ++ (es.flatMap Minute.queued).map .next
  outbox : (↑(es.flatMap Minute.reads) + ↑d'.outbox : Multiset Message) =
    ↑d.outbox + ↑(es.flatMap Minute.sent)

theorem Staffed.of_eq {d d' : Desk} (h : d.Staffed) (pool : d'.pool = d.pool)
    (workers : d'.workers = d.workers) (parked : d'.parked = d.parked) : d'.Staffed :=
  ⟨workers ▸ h.positive, by rw [pool, workers, parked]; exact h.whole,
    by rw [pool, parked]; exact h.busy, pool ▸ h.goOn⟩

def Steady (d d' : Desk) : Prop :=
  d'.goesOn = true → d.goesOn = true ∧ (d.Staffed → d'.Staffed)

theorem Steady.refl (d : Desk) : d.Steady d := fun goesOn => ⟨goesOn, id⟩

theorem Steady.trans {d d' d'' : Desk} (h : d.Steady d') (h' : d'.Steady d'') : d.Steady d'' := by
  intro goesOn
  obtain ⟨goesOn', second⟩ := h' goesOn
  obtain ⟨goesOn, first⟩ := h goesOn'
  exact ⟨goesOn, fun staffed => second (first staffed)⟩

theorem Steady.of_eq {d d' : Desk} (goesOn : d'.goesOn = d.goesOn) (pool : d'.pool = d.pool)
    (workers : d'.workers = d.workers) (parked : d'.parked = d.parked) : d.Steady d' :=
  fun on => ⟨goesOn ▸ on, fun staffed => staffed.of_eq pool workers parked⟩

/-- What a minute stands for. A request is taken up if and only if the marker of its transaction is
free, and it is answered once. -/
structure Step (d : Desk) (e : Minute) (d' : Desk) : Prop where
  held : ∀ job ∈ e.drops, job.key ∈ d.markers
  free : ∀ job ∈ e.taken, job.key ∉ d.markers
  replies : ∀ a ∈ e.answers, ∃ result, a.2 = Node.reply a.1.message result
  markers : d'.markers = e.remark d.markers
  waiting : ↑(e.answers.map Prod.fst) + d'.waiting = d.waiting + ↑e.taken
  steady : d.Steady d'
  balance : e ≠ .mended → d'.isOpen = true → d.Balance [e] d'

inductive Trail : Desk → List Minute → Desk → Prop
  | nil (d : Desk) : Trail d [] d
  | cons {d d' d'' : Desk} {e : Minute} {es : List Minute} (step : d.Step e d')
      (rest : Trail d' es d'') : Trail d (e :: es) d''

/-! ## The books -/

namespace Balance

variable {d d' d'' : Desk} {es es' : List Minute}

theorem refl (isOpen : d.isOpen = true) : d.Balance [] d where
  isOpen := isOpen
  isReady ready := ready
  inbox := by simp
  queue _ := by simp
  commands := by simp
  outbox := by simp

theorem trans (h : d.Balance es d') (h' : d'.Balance es' d'') : d.Balance (es ++ es') d'' where
  isOpen := h.isOpen
  isReady ready := h'.isReady (h.isReady ready)
  inbox := by
    rw [List.flatMap_append, List.flatMap_append, List.append_assoc, h'.inbox,
      ← List.append_assoc, h.inbox, List.append_assoc]
  queue ready := by
    have first := h.queue ready
    have second := h'.queue (h.isReady ready)
    simp only [List.flatMap_append, ← Multiset.coe_add]
    calc _ = ↑(es.flatMap Minute.drops) + ↑(es.flatMap Minute.taken) +
          (↑(es'.flatMap Minute.drops) + ↑(es'.flatMap Minute.taken) + d''.queue) := by ac_rfl
      _ = d.queue + ↑(es.flatMap Minute.asked) + ↑(es'.flatMap Minute.asked) := by
        rw [second, ← add_assoc, first]
      _ = _ := add_assoc ..
  commands := by
    rw [List.flatMap_append, List.flatMap_append, List.map_append, List.map_append,
      List.append_assoc, h'.commands, ← List.append_assoc, h.commands, List.append_assoc]
  outbox := by
    simp only [List.flatMap_append, ← Multiset.coe_add]
    rw [add_assoc, h'.outbox, ← add_assoc, h.outbox, add_assoc]

end Balance

namespace Trail

variable {d d' d'' : Desk} {es es' : List Minute} {e : Minute}

theorem single (h : d.Step e d') : Trail d [e] d' := .cons h (.nil d')

theorem append (h : Trail d es d') (h' : Trail d' es' d'') : Trail d (es ++ es') d'' := by
  induction h with
  | nil => exact h'
  | cons step _ ih => exact .cons step (ih h')

theorem steady (h : Trail d es d') : d.Steady d' := by
  induction h with
  | nil => exact .refl _
  | cons step _ ih => exact step.steady.trans ih

/-- The books of a desk that is open in the end, and was not repaired on the way. -/
theorem balance (h : Trail d es d') (sound : .mended ∉ es) (isOpen : d'.isOpen = true) :
    d.Balance es d' := by
  induction h with
  | nil => exact .refl isOpen
  | cons step _ ih =>
    have rest := ih (fun mem => sound (List.mem_cons_of_mem _ mem)) isOpen
    have first := step.balance (fun same => sound (same ▸ List.mem_cons_self)) rest.isOpen
    exact first.trans rest

/-- Every request that is taken up is answered or waits. -/
theorem waiting (h : Trail d es d') : ↑((es.flatMap Minute.answers).map Prod.fst) + d'.waiting =
    d.waiting + ↑(es.flatMap Minute.taken) := by
  induction h with
  | nil => simp
  | cons step _ ih =>
    simp only [List.flatMap_cons, List.map_append, ← Multiset.coe_add]
    rw [← add_assoc, ← step.waiting, add_assoc, add_assoc, ih]

theorem replies (h : Trail d es d') : ∀ a ∈ es.flatMap Minute.answers,
    ∃ result, a.2 = Node.reply a.1.message result := by
  induction h with
  | nil => simp
  | cons step _ ih =>
    intro a mem
    rcases List.mem_append.1 mem with mem | mem
    · exact step.replies a mem
    · exact ih a mem

end Trail

/-! ## Markers -/

/-- The markers are those of the requests that wait, one for each. -/
structure Marked (d : Desk) : Prop where
  keys : (↑d.markers : Multiset String) = d.waiting.map Job.key
  nodup : d.markers.Nodup

theorem Step.marked {d d' : Desk} {e : Minute} (h : d.Step e d') (marked : d.Marked) :
    d'.Marked := by
  obtain ⟨keys, nodup⟩ := marked
  have markers := h.markers
  have waiting := h.waiting
  cases e with
  | waits job =>
    have free := h.free job List.mem_cons_self
    simp only [Minute.answers, Minute.taken, List.map_nil, Multiset.coe_nil, zero_add] at waiting
    simp only [Minute.remark] at markers
    refine ⟨?_, markers ▸ List.nodup_cons.2 ⟨free, nodup⟩⟩
    rw [markers, waiting, Multiset.map_add, ← keys, ← Multiset.cons_coe, add_comm]
    rfl
  | returned job r =>
    simp only [Minute.answers, Minute.taken, List.map_cons, List.map_nil, Multiset.coe_nil,
      add_zero] at waiting
    simp only [Minute.remark] at markers
    refine ⟨?_, markers ▸ nodup.filter _⟩
    -- The key of the request is there once, so that taking it out leaves those of the others.
    have split : (↑d.markers : Multiset String) = job.key ::ₘ d'.waiting.map Job.key := by
      rw [keys, ← waiting, Multiset.map_add]
      rfl
    rw [markers, ← List.Nodup.erase_eq_filter nodup, ← Multiset.coe_erase, split,
      Multiset.erase_cons_head]
  | answered job r =>
    simp only [Minute.answers, Minute.taken, List.map_cons, List.map_nil] at waiting
    have same : d'.waiting = d.waiting := by
      rw [add_comm] at waiting
      exact add_right_cancel waiting
    simp only [Minute.remark] at markers
    exact ⟨by rw [markers, same, keys], markers ▸ nodup⟩
  | _ =>
    simp only [Minute.answers, Minute.taken, List.map_nil, Multiset.coe_nil, zero_add,
      add_zero] at waiting
    simp only [Minute.remark] at markers
    exact ⟨by rw [markers, waiting, keys], markers ▸ nodup⟩

theorem Trail.marked {d d' : Desk} {es : List Minute} (h : Trail d es d') (marked : d.Marked) :
    d'.Marked := by
  induction h with
  | nil => exact marked
  | cons step _ ih => exact ih (step.marked marked)

end Desk

end ContractNode
