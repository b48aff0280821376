import ContractNode.Proofs.Minutes
import ContractNode.Proofs.Stored

/-!
# Answers

What becomes of the requests of a contract while its session is ready and connected.

* `Node.isLive`, `Node.Day` : a session stays ready and connected while moves go on, and the minutes
  of its desk;
* `Desk.Account` : the books of a day. Every request is dropped or taken up, and answered once if it
  is taken up; every answer is sent once;
* `Trail.sent`, `Trail.account` : the books of any trail are in order;
* `day_of_moves` : a session that stays ready and connected has such a day.
-/

namespace ContractNode

/-- The message that an instruction forwards to the contract. -/
def Instruction.forwarded? : Instruction → Option Message
  | .next c => if c.forward then some c.message else none
  | _ => none

/-- What a minute sends to the contract, or queues to be forwarded, that answers nothing. -/
def Minute.others (e : Minute) : List Message :=
  (e.orders.filter (·.forward)).map (·.message) ++ e.speech

namespace Desk

/-- What is on its way to the contract. -/
def due (d : Desk) : Multiset Message := ↑d.outbox + ↑(d.commands.filterMap Instruction.forwarded?)

/-- The requests that are outstanding after some minutes: those that were so before and those that
have been taken up, without those that have been answered. -/
def outstanding (d : Desk) (es : List Minute) : Multiset Job :=
  d.waiting + ↑(es.flatMap Minute.taken) - ↑((es.flatMap Minute.answers).map Prod.fst)

/-- The books of a day, from one desk to another. -/
structure Account (d : Desk) (es : List Minute) (d' : Desk) : Prop where
  /-- What the contract sends is received once, in that order. -/
  heard : es.flatMap Minute.receipts ++ d'.inbox = d.inbox ++ es.flatMap Minute.arrivals
  /-- Every request is dropped or taken up, once. -/
  asked : ↑(es.flatMap Minute.drops) + ↑(es.flatMap Minute.taken) + d'.queue =
    d.queue + ↑(es.flatMap Minute.asked)
  /-- It is dropped if and only if one with its key is outstanding. -/
  dropped : ∀ es₁ e es₂, es = es₁ ++ e :: es₂ →
    ∀ job ∈ e.drops, ∃ other ∈ d.outstanding es₁, other.key = job.key
  taken : ∀ es₁ e es₂, es = es₁ ++ e :: es₂ →
    ∀ job ∈ e.taken, ∀ other ∈ d.outstanding es₁, other.key ≠ job.key
  /-- A request that is taken up is answered once, unless it is still outstanding. -/
  answered : ∀ es₁ es₂, es = es₁ ++ es₂ →
    ↑((es₁.flatMap Minute.answers).map Prod.fst) + d.outstanding es₁ =
      d.waiting + ↑(es₁.flatMap Minute.taken)
  waiting : d.outstanding es = d'.waiting
  /-- The answer is a result or a failure, and carries the channel and the transaction of the
  request. -/
  replies : ∀ a ∈ es.flatMap Minute.answers, a.2.channel = a.1.message.channel ∧
    a.2.tx = a.1.message.tx ∧ (a.2.kind = .response ∨ a.2.kind = .error)
  /-- Answers to writes and calls are queued for the outbound loop, which shows each of them to the
  lifecycle once. -/
  shown : (es.flatMap Minute.shows).map .next ++ d'.commands =
    d.commands ++ (es.flatMap Minute.queued).map .next
  /-- The contract is sent each answer once. -/
  sent : ↑(es.flatMap Minute.reads) + d'.due =
    d.due + ↑((es.flatMap Minute.answers).map Prod.snd) + ↑(es.flatMap Minute.others)

variable {d d' : Desk} {es es₁ es₂ : List Minute} {e : Minute}

theorem Trail.of_append (h : Trail d (es₁ ++ es₂) d') : ∃ d₁, Trail d es₁ d₁ ∧ Trail d₁ es₂ d' := by
  induction es₁ generalizing d with
  | nil => exact ⟨d, .nil d, h⟩
  | cons e es₁ ih =>
    cases h with
    | cons step rest =>
      obtain ⟨d₁, first, second⟩ := ih rest
      exact ⟨d₁, .cons step first, second⟩

theorem Trail.outstanding (h : Trail d es d') : d.outstanding es = d'.waiting := by
  unfold Desk.outstanding
  rw [← h.waiting]
  exact add_tsub_cancel_left _ _

/-- The markers at any point of a trail are those of the requests that are outstanding then. -/
theorem Trail.held_iff (h : Trail d (es₁ ++ e :: es₂) d') (marked : d.Marked) :
    ∃ d₁ d₂ : Desk, d₁.Step e d₂ ∧
      ∀ k, k ∈ d₁.markers ↔ ∃ other ∈ d.outstanding es₁, other.key = k := by
  obtain ⟨d₁, first, second⟩ := h.of_append
  cases second with
  | @cons _ d₂ _ _ _ step rest =>
    refine ⟨d₁, d₂, step, fun k => ?_⟩
    rw [first.outstanding, ← Multiset.mem_coe, (first.marked marked).keys, Multiset.mem_map]

theorem reply_addressed {m r : Message} (h : ∃ result, r = Node.reply m result) :
    r.channel = m.channel ∧ r.tx = m.tx ∧ (r.kind = .response ∨ r.kind = .error) := by
  obtain ⟨result, rfl⟩ := h
  cases result with
  | ok payload => exact ⟨rfl, rfl, .inl rfl⟩
  | error e => exact ⟨rfl, rfl, .inr rfl⟩

theorem filterMap_forwarded? (cs : List Command) :
    (cs.map Instruction.next).filterMap Instruction.forwarded? =
      (cs.filter (·.forward)).map (·.message) := by
  induction cs with
  | nil => rfl
  | cons c cs ih =>
    rw [List.map_cons, List.filterMap_cons, List.filter_cons, ih]
    cases forward : c.forward <;> simp [Instruction.forwarded?, forward]

/-- What the commands among some are to forward. -/
def forwards (cs : List Command) : List Message := (cs.filter (·.forward)).map (·.message)

theorem forwards_append (cs cs' : List Command) :
    forwards (cs ++ cs') = forwards cs ++ forwards cs' := by
  simp [forwards]

theorem sent_minute (e : Minute) :
    (↑e.sent + ↑(forwards e.queued) : Multiset Message) =
      ↑(forwards e.shows) + ↑(e.answers.map Prod.snd) + ↑e.others := by
  cases e with
  | answered job r | returned job r =>
    cases route : job.kind.route <;> simp [forwards, Minute.others, route]
  | _ => simp [forwards, Minute.others]

/-- What is sent, and what is queued to be forwarded, are the answers, what else is said, and what
was queued before. -/
theorem sent_minutes (es : List Minute) :
    (↑(es.flatMap Minute.sent) + ↑(forwards (es.flatMap Minute.queued)) : Multiset Message) =
      ↑(forwards (es.flatMap Minute.shows)) + ↑((es.flatMap Minute.answers).map Prod.snd) +
        ↑(es.flatMap Minute.others) := by
  induction es with
  | nil => rfl
  | cons e es ih =>
    simp only [List.flatMap_cons, forwards_append, List.map_append, ← Multiset.coe_add]
    calc _ = (↑e.sent + ↑(forwards e.queued) : Multiset Message) +
          (↑(es.flatMap Minute.sent) + ↑(forwards (es.flatMap Minute.queued))) := by ac_rfl
      _ = _ := by
        rw [sent_minute, ih]
        ac_rfl

/-- What is due to the contract of a desk that is open in the end is sent once. -/
theorem Trail.sent (trail : Trail d es d') (sound : .mended ∉ es) (isOpen : d'.isOpen = true) :
    ↑(es.flatMap Minute.reads) + d'.due =
      d.due + ↑((es.flatMap Minute.answers).map Prod.snd) + ↑(es.flatMap Minute.others) := by
  have balance := trail.balance sound isOpen
  have dues := congrArg (List.filterMap Instruction.forwarded?) balance.commands
  rw [List.filterMap_append, List.filterMap_append, filterMap_forwarded?,
    filterMap_forwarded?] at dues
  have dues' : (↑(forwards (es.flatMap Minute.shows)) : Multiset Message) +
      ↑(d'.commands.filterMap Instruction.forwarded?) =
        ↑(d.commands.filterMap Instruction.forwarded?) + ↑(forwards (es.flatMap Minute.queued)) :=
    congrArg Multiset.ofList dues
  -- What was queued to be forwarded stands on both sides, and cancels.
  refine add_right_cancel (b := (↑(forwards (es.flatMap Minute.queued)) : Multiset Message)) ?_
  unfold due
  calc _ = (↑(es.flatMap Minute.reads) + ↑d'.outbox) +
        ↑(d'.commands.filterMap Instruction.forwarded?) +
          (↑(forwards (es.flatMap Minute.queued)) : Multiset Message) := by ac_rfl
    _ = ↑d.outbox + (↑(es.flatMap Minute.sent) + ↑(forwards (es.flatMap Minute.queued))) +
          ↑(d'.commands.filterMap Instruction.forwarded?) := by
      rw [balance.outbox]
      ac_rfl
    _ = ↑d.outbox + (↑(forwards (es.flatMap Minute.shows)) +
          ↑(d'.commands.filterMap Instruction.forwarded?)) +
            ↑((es.flatMap Minute.answers).map Prod.snd) + ↑(es.flatMap Minute.others) := by
      rw [sent_minutes]
      ac_rfl
    _ = _ := by
      rw [dues']
      ac_rfl

/-- The books of a trail whose desk is ready, and open in the end. -/
theorem Trail.account (trail : Trail d es d') (marked : d.Marked) (sound : .mended ∉ es)
    (isReady : d.isReady = true) (isOpen : d'.isOpen = true) : Account d es d' := by
  have balance := trail.balance sound isOpen
  refine ⟨balance.inbox, balance.queue isReady, ?_, ?_, ?_, trail.outstanding, fun a mem =>
    reply_addressed (trail.replies a mem), balance.commands, trail.sent sound isOpen⟩
  · rintro es₁ e es₂ rfl job mem
    obtain ⟨d₁, d₂, step, held⟩ := trail.held_iff marked
    exact (held _).1 (step.held job mem)
  · rintro es₁ e es₂ rfl job mem other there same
    obtain ⟨d₁, d₂, step, held⟩ := trail.held_iff marked
    exact step.free job mem ((held _).2 ⟨other, there, same⟩)
  · rintro es₁ es₂ rfl
    obtain ⟨d₁, first, _⟩ := trail.of_append
    rw [first.outstanding, first.waiting]

end Desk

namespace Node

variable {P : Act → Prop} {n n' n'' : Node} {s : SessionId} {ses : Session}

/-- A session is ready, and what it sends reaches its contract. -/
def isLive (n : Node) (s : SessionId) : Bool :=
  (n.session? s).any fun ses => ses.phase == .ready && ses.isOpen

/-- The minutes of a session that is live all the time, while acts in `P` come from outside. -/
inductive Day (P : Act → Prop) (s : SessionId) : Node → List Minute → Node → Prop
  | start {n : Node} (live : n.isLive s = true) : Day P s n [] n
  | move {n n' n'' : Node} {es es' : List Minute} (day : Day P s n es n') (move : Move P n' n'')
      (live : n''.isLive s = true) (trail : Desk.Trail (n'.desk s) es' (n''.desk s))
      (fits : ∀ e ∈ es', e.Fits P s n' n'') : Day P s n (es ++ es') n''

theorem desk_of_live (live : n.isLive s = true) :
    (n.desk s).isReady = true ∧ (n.desk s).isOpen = true := by
  obtain ⟨ses, found, holds⟩ := (Option.any_eq_true ..).1 live
  rw [desk_found found]
  exact Bool.and_eq_true_iff.1 holds

theorem Day.trail {es : List Minute} (day : Day P s n es n') :
    Desk.Trail (n.desk s) es (n'.desk s) := by
  induction day with
  | start => exact .nil _
  | move _ _ _ trail _ ih => exact ih.append trail

theorem Day.live {es : List Minute} (day : Day P s n es n') : n'.isLive s = true := by
  cases day with
  | start live => exact live
  | move _ _ live => exact live

/-- Nothing has to be mended at a desk that is open. -/
theorem not_mended_of_fits {es : List Minute} (fits : ∀ e ∈ es, e.Fits P s n n')
    (isOpen : (n.desk s).isOpen = true) : .mended ∉ es := by
  intro mem
  cases fits _ mem with
  | mended shut =>
    rw [isOpen] at shut
    cases shut
  | ensues ensues => exact ensues

/-- Nothing has to be mended as long as a session is live. -/
theorem Day.sound {es : List Minute} (day : Day P s n es n') : .mended ∉ es := by
  induction day with
  | start => exact List.not_mem_nil
  | move day _ _ _ fits ih =>
    intro mem
    rcases List.mem_append.1 mem with mem | mem
    · exact ih mem
    · exact not_mended_of_fits fits (desk_of_live day.live).2 mem

theorem others_of_fits {e : Minute} (fits : e.Fits P s n n') :
    ∀ m ∈ e.others, m.kind = .registered ∨
    m.kind = .transaction ∨ m.kind = .ready ∨ ∃ a, P a ∧ a.voice? = some m.kind := by
  intro m mem
  cases fits with
  | @ordered a c given _ asks =>
    have same : m = c.message := by
      cases forward : c.forward
      · simp [Minute.others, forward] at mem
      · simpa [Minute.others, forward] using mem
    exact .inr (.inr (.inr ⟨a, given, same ▸ asks⟩))
  | said given =>
    cases List.mem_singleton.1 mem
    exact .inr (.inr (.inr ⟨_, given, rfl⟩))
  | @ensues e ensues =>
    cases e with
    | ordered c =>
      have same : m = c.message := by
        cases forward : c.forward
        · simp [Minute.others, forward] at mem
        · simpa [Minute.others, forward] using mem
      exact .inr (same ▸ ensues.imp_right .inl)
    | said m' =>
      cases List.mem_singleton.1 mem
      exact .inl ensues
    | _ => cases mem
  | _ => cases mem

/-- What a session says that answers nothing are messages of the node itself, unless somebody from
outside wanted it to say so. -/
theorem Day.others {es : List Minute} (day : Day P s n es n') :
    ∀ m ∈ es.flatMap Minute.others, m.kind = .registered ∨ m.kind = .transaction ∨
      m.kind = .ready ∨ ∃ a, P a ∧ a.voice? = some m.kind := by
  induction day with
  | start => simp
  | move _ _ _ _ fits ih =>
    intro m mem
    rw [List.flatMap_append] at mem
    rcases List.mem_append.1 mem with mem | mem
    · exact ih m mem
    · obtain ⟨e, there, mem⟩ := List.mem_flatMap.1 mem
      exact others_of_fits (fits e there) m mem

/-- All that is left to do on a desk waits for a gated key, or for a call. -/
structure Spent (n : Node) (s : SessionId) (ses : Session) : Prop where
  inbox : ses.inbound = .running → (n.desk s).inbox = []
  commands : ses.outbound = .running → (n.desk s).commands = []
  /-- Requests are queued only while every worker is held up by a gated key. -/
  queue : (n.desk s).queue = 0 ∨ ses.parked.length = ses.config.workers
  dials : (n.desk s).dials = []
  parked : ∀ p ∈ ses.parked, p.ref.key ∈ n.gates

theorem spent_of_rest (rest : n.AtRest) (found : n.session? s = some ses)
    (staffed : (n.desk s).Staffed) : n.Spent s ses := by
  obtain ⟨commands, pool, dials, parked, inbox⟩ := (atRest_iff.1 rest).2 s ses found
  have desk := desk_found found
  refine ⟨fun running => ?_, fun running => ?_, ?_, desk ▸ dials, parked⟩
  · rw [desk]
    simp [Session.desk, (inbox running).1]
  · rw [desk]
    exact commands running
  · have whole := staffed.whole
    rw [desk] at whole ⊢
    rw [WorkerPool.take_eq_none_iff] at pool
    rcases Nat.eq_zero_or_pos ses.pool.idle with none | idle
    · right
      change ses.pool.idle + ses.parked.length = ses.config.workers at whole
      omega
    · left
      show ses.pool.jobs + ↑(ses.dials.map (Job.mk .invoke)) = 0
      rw [WorkerPool.jobs, pool idle, dials]
      rfl

/-- While a session is ready and connected, each request of its contract is dropped if one with its
key is outstanding, and answered once otherwise: at once, or when its key can be read, or when its
call returns. The contract is sent every answer once, and no other results and failures than those
that somebody from outside has the session send. Whoever waits for the transaction is told the
failure of a write or of a call, when the outbound loop shows it, and of no other request. -/
theorem day_of_moves (built : ∀ a, P a → a.isManned = true)
    {channels historyless system : List String} {drill : Drill}
    (run : Moves P (withChannels channels historyless system drill) n)
    (live : n.isLive s = true)
    (moves : Relation.ReflTransGen (fun n n' => Move P n n' ∧ n'.isLive s = true) n n') :
    ∃ es, Day P s n es n' ∧ (n.desk s).Account es (n'.desk s) ∧
      (∀ m ∈ es.flatMap Minute.others, m.kind = .response ∨ m.kind = .error →
        ∃ a, P a ∧ a.voice? = some m.kind) ∧
      ∀ ses, n'.AtRest → n'.session? s = some ses → n'.Spent s ses := by
  have attended :=
    attended_moves built (attended_withChannels channels historyless system drill) run
  obtain ⟨es, day, attended'⟩ : ∃ es, Day P s n es n' ∧ n'.Attended := by
    induction moves with
    | refl => exact ⟨[], .start live, attended⟩
    | tail _ move ih =>
      obtain ⟨es, day, attended'⟩ := ih
      obtain ⟨es', trail, fits⟩ := trail_of_move built attended'.sound attended'.staffed move.1 s
      exact ⟨es ++ es', .move day move.1 move.2 trail fits, attended_move built attended' move.1⟩
  refine ⟨es, day, ?_, fun m mem kind => ?_, fun ses rest found => ?_⟩
  · exact day.trail.account (attended.marked s) day.sound (desk_of_live live).1
      (desk_of_live day.live).2
  · rcases day.others m mem with other | other | other | outside
    · simp [other] at kind
    · simp [other] at kind
    · simp [other] at kind
    · exact outside
  · refine spent_of_rest rest found (attended'.staffed s ?_)
    have isOpen := (desk_of_live day.live).2
    rw [desk_found found] at isOpen ⊢
    simp only [Session.desk, Session.isOpen, Bool.and_eq_true] at isOpen
    exact isOpen.1.2

/-- The contract of a transaction sets a key. -/
theorem day_of_moves_storingRun :
    let n := (withChannels ["ch"] [] [] {}).steps storingRun
    let m := setting "ch" "t1" "k"
    ∃ n' es, Day (·.isManned = true) 0 n es n' ∧ (n.desk 0).Account es (n'.desk 0) ∧
      (n'.desk 0).outbox = (n.desk 0).outbox ++ [{ m with kind := .response, payload := [] }] := by
  intro n m
  have live : n.isLive 0 = true := by decide +kernel
  have live' : (n.act (.contractSends 0 m)).isLive 0 = true := by decide +kernel
  have turns : ((n.act (.contractSends 0 m)).receive? 0).any (fun n₁ => n₁.isLive 0 &&
      (n₁.work? 0).any fun n₂ => n₂.isLive 0 && (n₂.command? 0).any fun n₃ => n₃.isLive 0 &&
        (n₃.desk 0).outbox == (n.desk 0).outbox ++ [{ m with kind := .response, payload := [] }]) =
      true := by
    decide +kernel
  obtain ⟨n₁, received, facts⟩ := (Option.any_eq_true ..).1 turns
  obtain ⟨live₁, turns⟩ := Bool.and_eq_true_iff.1 facts
  obtain ⟨n₂, served, facts⟩ := (Option.any_eq_true ..).1 turns
  obtain ⟨live₂, turns⟩ := Bool.and_eq_true_iff.1 facts
  obtain ⟨n₃, shown, facts⟩ := (Option.any_eq_true ..).1 turns
  obtain ⟨live₃, answer⟩ := Bool.and_eq_true_iff.1 facts
  have asked : Relation.ReflTransGen
      (fun n n' => Move (·.isManned = true) n n' ∧ n'.isLive 0 = true) n n₁ :=
    .tail (.single ⟨.act (.contractSends 0 m) rfl fun _ => nofun, live'⟩) ⟨.receive received, live₁⟩
  obtain ⟨es, day, account, _⟩ := day_of_moves (fun _ => id) (moves_steps (by decide +kernel)) live
    ((asked.tail ⟨.work served, live₂⟩).tail ⟨.command shown, live₃⟩)
  exact ⟨n₃, es, day, account, beq_iff_eq.1 answer⟩

/-- An execution whose context somebody has deleted is not told of a failure that its contract is
sent. -/
theorem untold_of_deleted :
    let n := (withChannels ["ch"] [] [] {}).steps (waitingRun ++ [.deleteContext 0 "ch" "t1"])
    let m := setting "ch" "t1" "k"
    let n' := n.step (.contractSends 0 m)
    n.isLive 0 = true ∧ n'.isLive 0 = true ∧ n.calls = [⟨0, 0, .caller "a", none⟩] ∧
      (n.context? 0 0).map (·.key) = some m.key ∧
      (n'.session? 0).any (fun ses => ses.link.outbox.queue.any fun r =>
        r.kind == .error && r.channel == "ch" && r.tx == "t1") = true ∧
      n'.calls = n.calls ∧ n'.results.isEmpty = true := by
  decide +kernel

end Node

end ContractNode
