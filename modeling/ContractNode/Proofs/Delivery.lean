import ContractNode.Proofs.Decoding
import ContractNode.Stream.Pair

/-!
# What a stream delivers

Whatever is done at the two ends of a stream, in whatever order, each direction delivers what was
sent into it.

* `StreamPair.Act`, `StreamPair.step` : what can be done at an end, and what is answered;
* `StreamPair.Traffic` : a stream with a log of what was done and answered; `sentFrom`, `takenAt`,
  `ClosedBy`, `DroppedBy`, `receipts` are read off the log;
* `StreamPair.arrival` : what a message arrives as, encoded on one side and decoded on the other;
* `Pipe.Carries` : a pipe holds what was sent into it and not taken out yet;
* `StreamPair.Beside` : streams that differ in what one end may still send;
* `delivers_of_acts` : sends, receipts and the end of the stream after any sequence of acts.
-/

namespace ContractNode

namespace StreamPair

inductive Act
  | send (e : End) (m : Message)
  | receive (e : End)
  | poll (e : End)
  | close (e : End)
  | drop (e : End)
deriving DecidableEq

def Act.at : Act → End
  | .send e _ | .receive e | .poll e | .close e | .drop e => e

inductive Answer
  | done
  /-- What there was to receive. To receive `nothing` is to wait, unless one polls. -/
  | received (r : Received Message)
  | failed (e : StreamError)
  /-- The end had been given up before. -/
  | gone
deriving DecidableEq

/-- Does something at an end. An end that was given up can do nothing any more. -/
def step (s : StreamPair) (a : Act) : Answer × StreamPair :=
  if s.isDropped a.at then (.gone, s)
  else match a with
    | .send e m =>
      match s.send e m with
      | .error err => (.failed err, s)
      | .ok s' => (.done, s')
    | .receive e =>
      match s.receive e with
      | (.error err, s') => (.failed err, s')
      | (.ok r, s') => (.received r, s')
    | .poll e =>
      match s.poll e with
      | (.error err, s') => (.failed err, s')
      | (.ok none, s') => (.received .nothing, s')
      | (.ok (some m), s') => (.received (.item m), s')
    | .close e => (.done, s.close e)
    | .drop e => (.done, s.drop e)

/-- What was done at the ends of a stream, and answered, the oldest first. -/
abbrev Log := List (Act × Answer)

/-- A stream together with all that was done with it. -/
structure Traffic where
  pair : StreamPair := {}
  log : Log := []

namespace Traffic

def act (t : Traffic) (a : Act) : Traffic :=
  ⟨(t.pair.step a).2, t.log ++ [(a, (t.pair.step a).1)]⟩

def after (t : Traffic) (acts : List Act) : Traffic := acts.foldl act t

end Traffic

/-! ## What a log tells -/

namespace Log

def sentFrom (e : End) (log : Log) : List Message :=
  log.filterMap fun
    | (.send e' m, .done) => if e' = e then some m else none
    | _ => none

/-- What an answer took out of the stream, if anything: a message, or bytes that are none. -/
def taken? : Answer → Option (Except StreamError Message)
  | .received (.item m) => some (.ok m)
  | .failed (.codec e) => some (.error (.codec e))
  | _ => none

/-- What was answered to whoever received or polled at an end. -/
def receipts (e : End) (log : Log) : List Answer :=
  log.filterMap fun
    | (.receive e', answer) | (.poll e', answer) => if e' = e then some answer else none
    | _ => none

def takenAt (e : End) (log : Log) : List (Except StreamError Message) :=
  (log.receipts e).filterMap taken?

def DroppedBy (e : End) (log : Log) : Prop := (.drop e, .done) ∈ log

/-- An end said that it has nothing more to send, or was given up. -/
def ClosedBy (e : End) (log : Log) : Prop := (.close e, .done) ∈ log ∨ log.DroppedBy e

end Log

def arrival (m : Message) : Except StreamError Message :=
  (Message.codec.decode (Message.codec.encode m)).mapError .codec

theorem arrival_eq {m : Message} (small : (Message.codec.encode m).length < wireLimit) :
    arrival m = .ok m := by
  rw [arrival, Message.decode_encode small]
  rfl

end StreamPair

/-! ## One direction -/

open StreamPair

/-- A pipe holds what was sent into it and not taken out yet, unless its receiver is gone. -/
structure Pipe.Carries (p : Pipe Bytes) (sent : List Message)
    (taken : List (Except StreamError Message)) (shut gone : Prop) : Prop where
  closed : p.closed = true ↔ shut
  abandoned : p.abandoned = true ↔ gone
  order : ∃ rest : List Message, sent.map arrival = taken ++ rest.map arrival ∧
    (¬ gone → p.queue = rest.map Message.codec.encode)

namespace Pipe

variable {p : Pipe Bytes} {sent : List Message} {taken : List (Except StreamError Message)}
  {shut gone : Prop}

theorem carries_empty : Carries {} [] [] False False :=
  ⟨by simp, by simp, [], rfl, fun _ => rfl⟩

theorem Carries.send (carries : p.Carries sent taken shut gone) (m : Message) :
    Carries { p with queue := p.queue ++ [Message.codec.encode m] } (sent ++ [m]) taken shut
      gone := by
  obtain ⟨rest, order, queue⟩ := carries.order
  refine ⟨carries.closed, carries.abandoned, rest ++ [m], ?_, fun stays => ?_⟩
  · rw [List.map_append, order, List.map_append, List.append_assoc]
  · rw [List.map_append, ← queue stays]
    rfl

theorem Carries.take (carries : p.Carries sent taken shut gone) (stays : ¬ gone)
    {bs : Bytes} {queue : List Bytes} (first : p.queue = bs :: queue) :
    Carries { p with queue := queue } sent
      (taken ++ [(Message.codec.decode bs).mapError .codec]) shut gone := by
  obtain ⟨rest, order, same⟩ := carries.order
  rw [same stays] at first
  cases rest with
  | nil => cases first
  | cons m rest =>
    cases first
    refine ⟨carries.closed, carries.abandoned, rest, ?_, fun _ => rfl⟩
    rw [order, List.append_assoc]
    rfl

theorem Carries.close (carries : p.Carries sent taken shut gone) :
    p.close.Carries sent taken True gone :=
  ⟨by simp [Pipe.close], carries.abandoned, carries.order⟩

theorem Carries.abandon (carries : p.Carries sent taken shut gone) :
    p.abandon.Carries sent taken shut True := by
  obtain ⟨rest, order, _⟩ := carries.order
  exact ⟨carries.closed, by simp [Pipe.abandon], rest, order, fun stays => absurd trivial stays⟩

/-- What is taken out is what was sent in, in order; nothing is left in the pipe exactly when all of
it was taken. -/
theorem Carries.queue_eq_nil_iff (carries : p.Carries sent taken shut gone)
    (stays : ¬ gone) : p.queue = [] ↔ taken = sent.map arrival := by
  obtain ⟨rest, order, queue⟩ := carries.order
  rw [queue stays, order]
  simp

end Pipe

/-! ## Both directions -/

@[simp] theorem End.other_other (e : End) : e.other.other = e := by cases e <;> rfl

theorem End.other_ne (e : End) : e.other ≠ e := by cases e <;> decide

theorem End.eq_other {e e' : End} (ne : e ≠ e') : e = e'.other := by
  cases e <;> cases e' <;> first | rfl | exact absurd rfl ne

namespace StreamPair

@[simp] theorem outgoing_setOutgoing (s : StreamPair) (e e' : End) (p : Pipe Bytes) :
    (s.setOutgoing e p).outgoing e' = if e = e' then p else s.outgoing e' := by
  cases e <;> cases e' <;> rfl

def Answer.ofArrival : Except StreamError Message → Answer
  | .ok m => .received (.item m)
  | .error e => .failed e

theorem ofArrival_ok (m : Message) : Answer.ofArrival ((Except.ok m).mapError .codec) =
    .received (.item m) := rfl

theorem ofArrival_error (e : CodecError) : Answer.ofArrival ((Except.error e).mapError .codec) =
    .failed (.codec e) := rfl

theorem taken?_ofArrival (bs : Bytes) :
    Log.taken? (.ofArrival ((Message.codec.decode bs).mapError .codec)) =
      some ((Message.codec.decode bs).mapError .codec) := by
  cases Message.codec.decode bs <;> rfl

/-! ### What an act comes to -/

section Steps

variable {s : StreamPair} {e : End}

theorem step_of_dropped {a : Act} (dropped : s.isDropped a.at = true) : s.step a = (.gone, s) :=
  if_pos dropped

theorem step_send (present : s.isDropped e = false) (m : Message) :
    s.step (.send e m) =
      if (s.outgoing e).closed || (s.outgoing e).abandoned then (.failed .disconnected, s)
      else (.done, s.setOutgoing e { s.outgoing e with
        queue := (s.outgoing e).queue ++ [Message.codec.encode m] }) := by
  have present' : ¬ s.isDropped (Act.send e m).at = true := by simpa [Act.at] using present
  rw [step, if_neg present']
  by_cases shut : ((s.outgoing e).closed || (s.outgoing e).abandoned) = true
  · simp only [StreamPair.send, Pipe.send, if_pos shut]
  · simp only [StreamPair.send, Pipe.send, if_neg shut]

/-- Nothing is there to receive: one waits, unless nothing will come. -/
theorem step_receive_of_empty (present : s.isDropped e = false)
    (empty : (s.incoming e).queue = []) :
    s.step (.receive e) =
      (.received (if (s.incoming e).closed then .endOfStream else .nothing), s) := by
  have present' : ¬ s.isDropped (Act.receive e).at = true := by simpa [Act.at] using present
  rw [step, if_neg present']
  cases shut : (s.incoming e).closed <;> simp [StreamPair.receive, Pipe.receive, empty, shut]

theorem step_receive_of_first (present : s.isDropped e = false) {bs : Bytes} {queue : List Bytes}
    (first : (s.incoming e).queue = bs :: queue) :
    s.step (.receive e) = (.ofArrival ((Message.codec.decode bs).mapError .codec),
      s.setIncoming e { s.incoming e with queue := queue }) := by
  have present' : ¬ s.isDropped (Act.receive e).at = true := by simpa [Act.at] using present
  rw [step, if_neg present']
  cases decoded : Message.codec.decode bs <;>
    simp [StreamPair.receive, Pipe.receive, first, decoded, ofArrival_ok, ofArrival_error]

/-- One who polls is told at once, and that the stream is over as a failure. -/
theorem step_poll_of_empty (present : s.isDropped e = false)
    (empty : (s.incoming e).queue = []) :
    s.step (.poll e) =
      (if (s.incoming e).closed then .failed .disconnected else .received .nothing, s) := by
  have present' : ¬ s.isDropped (Act.poll e).at = true := by simpa [Act.at] using present
  rw [step, if_neg present']
  cases shut : (s.incoming e).closed <;>
    simp [StreamPair.poll, StreamPair.receive, Pipe.receive, empty, shut]

theorem step_poll_of_first (present : s.isDropped e = false) {bs : Bytes} {queue : List Bytes}
    (first : (s.incoming e).queue = bs :: queue) :
    s.step (.poll e) = (.ofArrival ((Message.codec.decode bs).mapError .codec),
      s.setIncoming e { s.incoming e with queue := queue }) := by
  have present' : ¬ s.isDropped (Act.poll e).at = true := by simpa [Act.at] using present
  rw [step, if_neg present']
  cases decoded : Message.codec.decode bs <;>
    simp [StreamPair.poll, StreamPair.receive, Pipe.receive, first, decoded, ofArrival_ok,
      ofArrival_error]

theorem setIncoming_incoming (s : StreamPair) (e : End) : s.setIncoming e (s.incoming e) = s := by
  cases e <;> rfl

/-- Whether one receives or polls, the same is taken. -/
theorem snd_step_of_takes (present : s.isDropped e = false) {a : Act}
    (takes : a = .receive e ∨ a = .poll e) :
    (s.step a).2 = s.setIncoming e (s.incoming e).receive.2 := by
  cases first : (s.incoming e).queue with
  | nil =>
    have still : (s.incoming e).receive.2 = s.incoming e := by simp [Pipe.receive, first]
    rw [still, setIncoming_incoming]
    rcases takes with rfl | rfl
    · rw [step_receive_of_empty present first]
    · rw [step_poll_of_empty present first]
  | cons bs queue =>
    rw [Pipe.receive_of_queue first]
    rcases takes with rfl | rfl
    · rw [step_receive_of_first present first]
    · rw [step_poll_of_first present first]

end Steps

namespace Log

variable {log : Log} {a : Act} {answer : Answer} {e : End}

@[simp] theorem sentFrom_concat :
    sentFrom e (log ++ [(a, answer)]) = sentFrom e log ++ sentFrom e [(a, answer)] :=
  List.filterMap_append

theorem receipts_concat :
    receipts e (log ++ [(a, answer)]) = receipts e log ++ receipts e [(a, answer)] :=
  List.filterMap_append

@[simp] theorem takenAt_concat :
    takenAt e (log ++ [(a, answer)]) = takenAt e log ++ takenAt e [(a, answer)] := by
  rw [takenAt, receipts_concat, List.filterMap_append]
  rfl

@[simp] theorem droppedBy_concat :
    DroppedBy e (log ++ [(a, answer)]) ↔ DroppedBy e log ∨ (a, answer) = (.drop e, .done) := by
  rw [DroppedBy, List.mem_append, List.mem_singleton, DroppedBy, eq_comm]

@[simp] theorem closedBy_concat :
    ClosedBy e (log ++ [(a, answer)]) ↔
      ClosedBy e log ∨ (a, answer) = (.close e, .done) ∨ (a, answer) = (.drop e, .done) := by
  rw [ClosedBy, droppedBy_concat, List.mem_append, List.mem_singleton, ClosedBy, eq_comm]
  exact or_or_or_comm

end Log

namespace Traffic

variable {t : Traffic}

/-- Each direction of a stream carries what its log tells. -/
def Fair (t : Traffic) : Prop :=
  ∀ e, (t.pair.outgoing e).Carries (t.log.sentFrom e) (t.log.takenAt e.other) (t.log.ClosedBy e)
    (t.log.DroppedBy e.other)

theorem fair_fresh : Fair {} := by
  intro e
  have empty : ({} : StreamPair).outgoing e = {} := by cases e <;> rfl
  simpa [empty, Log.sentFrom, Log.takenAt, Log.receipts, Log.ClosedBy, Log.DroppedBy] using
    Pipe.carries_empty

/-- An answer that does nothing and takes nothing leaves the tale of the log as it was. -/
theorem Fair.still {a : Act} {answer : Answer} (fair : t.Fair) (undone : answer ≠ .done)
    (untaken : Log.taken? answer = none) : Fair ⟨t.pair, t.log ++ [(a, answer)]⟩ := by
  intro e
  have sent : Log.sentFrom e [(a, answer)] = [] := by
    cases a <;> cases answer <;> simp_all [Log.sentFrom]
  have taken : Log.takenAt e.other [(a, answer)] = [] := by
    cases a <;> simp only [Log.takenAt, Log.receipts, List.filterMap_cons, List.filterMap_nil]
    all_goals split <;> simp_all
  simpa [undone, sent, taken] using fair e

theorem Fair.send (fair : t.Fair) (e : End) (m : Message) :
    Fair ⟨t.pair.setOutgoing e { t.pair.outgoing e with
        queue := (t.pair.outgoing e).queue ++ [Message.codec.encode m] },
      t.log ++ [(.send e m, .done)]⟩ := by
  intro e'
  by_cases same : e = e'
  · subst same
    simpa [Log.sentFrom, Log.takenAt, Log.receipts] using (fair e).send m
  · simpa [Log.sentFrom, Log.takenAt, Log.receipts, same] using fair e'

/-- Whether somebody receives or polls, what comes first is taken. -/
theorem Fair.take (fair : t.Fair) {e : End} {a : Act} (takes : a = .receive e ∨ a = .poll e)
    (stays : ¬ t.log.DroppedBy e) {bs : Bytes} {queue : List Bytes}
    (first : (t.pair.incoming e).queue = bs :: queue) {answer : Answer}
    (taken : Log.taken? answer = some ((Message.codec.decode bs).mapError .codec)) :
    Fair ⟨t.pair.setIncoming e { t.pair.incoming e with queue := queue },
      t.log ++ [(a, answer)]⟩ := by
  intro e'
  have undone : answer ≠ .done := fun same => by simp [same, Log.taken?] at taken
  by_cases same : e.other = e'
  · subst same
    have took := (fair e.other).take (by rwa [End.other_other]) first
    rcases takes with rfl | rfl <;>
      simpa [setIncoming, incoming, Log.sentFrom, Log.takenAt, Log.receipts, undone, taken] using
        took
  · have other : e ≠ e'.other := fun same' => same (by rw [same', End.other_other])
    rcases takes with rfl | rfl <;>
      simpa [setIncoming, Log.sentFrom, Log.takenAt, Log.receipts, undone, same, other] using
        fair e'

theorem Fair.close (fair : t.Fair) (e : End) :
    Fair ⟨t.pair.close e, t.log ++ [(.close e, .done)]⟩ := by
  intro e'
  by_cases same : e = e'
  · subst same
    simpa [StreamPair.close, Log.sentFrom, Log.takenAt, Log.receipts] using (fair e).close
  · simpa [StreamPair.close, Log.sentFrom, Log.takenAt, Log.receipts, same] using fair e'

/-- An end that is given up has nothing more to send, and receives nothing more. -/
theorem Fair.drop (fair : t.Fair) (e : End) :
    Fair ⟨t.pair.drop e, t.log ++ [(.drop e, .done)]⟩ := by
  intro e'
  by_cases same : e = e'
  · subst same
    simpa [StreamPair.drop, StreamPair.close, setIncoming, incoming, End.other_ne,
      Ne.symm (End.other_ne e), Log.sentFrom, Log.takenAt, Log.receipts] using (fair e).close
  · cases End.eq_other (Ne.symm same)
    simpa [StreamPair.drop, StreamPair.close, setIncoming, incoming, Ne.symm (End.other_ne e),
      End.other_ne, Log.sentFrom, Log.takenAt, Log.receipts] using (fair e.other).abandon

theorem Fair.isDropped_iff (fair : t.Fair) (e : End) :
    t.pair.isDropped e = true ↔ t.log.DroppedBy e := by
  simpa [isDropped, incoming] using (fair e.other).abandoned

theorem Fair.act (fair : t.Fair) (a : Act) : (t.act a).Fair := by
  unfold Traffic.act
  by_cases dropped : t.pair.isDropped a.at = true
  · rw [step_of_dropped dropped]
    exact fair.still nofun rfl
  · have stays := mt (fair.isDropped_iff a.at).2 dropped
    have present := Bool.eq_false_iff.2 dropped
    cases a with
    | send e m =>
      rw [step_send (e := e) present m]
      split
      · exact fair.still nofun rfl
      · exact fair.send e m
    | receive e =>
      cases first : (t.pair.incoming e).queue with
      | nil =>
        rw [step_receive_of_empty (e := e) present first]
        exact fair.still (by simp) (by split <;> rfl)
      | cons bs queue =>
        rw [step_receive_of_first (e := e) present first]
        exact fair.take (.inl rfl) stays first (taken?_ofArrival bs)
    | poll e =>
      cases first : (t.pair.incoming e).queue with
      | nil =>
        rw [step_poll_of_empty (e := e) present first]
        exact fair.still (by split <;> simp) (by split <;> rfl)
      | cons bs queue =>
        rw [step_poll_of_first (e := e) present first]
        exact fair.take (.inr rfl) stays first (taken?_ofArrival bs)
    | close e =>
      rw [step, if_neg dropped]
      exact fair.close e
    | drop e =>
      rw [step, if_neg dropped]
      exact fair.drop e

theorem Fair.after (fair : t.Fair) (acts : List Act) : (t.after acts).Fair := by
  induction acts generalizing t with
  | nil => exact fair
  | cons a acts ih => exact ih (fair.act a)

end Traffic

/-! ## One direction is nothing to the other -/

/-- What an act does to the pipe that leads away from an end. -/
def Act.onPipe (e : End) (p : Pipe Bytes) : Act → Pipe Bytes
  | .send e' m => if e' = e then (p.send (Message.codec.encode m)).getD p else p
  | .receive e' | .poll e' => if e' = e then p else p.receive.2
  | .close e' => if e' = e then p.close else p
  | .drop e' => if e' = e then p.close else p.abandon

theorem outgoing_setIncoming (s : StreamPair) (e e' : End) (p : Pipe Bytes) :
    (s.setIncoming e p).outgoing e' = if e = e' then s.outgoing e' else p := by
  cases e <;> cases e' <;> rfl

theorem incoming_eq_outgoing (s : StreamPair) {e e' : End} (ne : ¬ e = e') :
    s.incoming e = s.outgoing e' := by
  rw [End.eq_other ne, incoming, End.other_other]

/-- Each pipe goes its own way: what an act does to it depends on nothing but the pipe, and on
whether whoever acts is still there. -/
theorem outgoing_step (s : StreamPair) (a : Act) (e : End) :
    (s.step a).2.outgoing e =
      if s.isDropped a.at then s.outgoing e else a.onPipe e (s.outgoing e) := by
  by_cases dropped : s.isDropped a.at = true
  · rw [step_of_dropped dropped, if_pos dropped]
  · have present := Bool.eq_false_iff.2 dropped
    rw [if_neg dropped]
    cases a with
    | send e' m =>
      rw [step_send (e := e') present m]
      by_cases same : e' = e
      · subst same
        cases shut : (s.outgoing e').closed || (s.outgoing e').abandoned <;>
          simp [Act.onPipe, Pipe.send, shut]
      · split <;> simp [Act.onPipe, same]
    | receive e' =>
      rw [snd_step_of_takes (e := e') present (.inl rfl), outgoing_setIncoming, Act.onPipe]
      split
      · rfl
      · rename_i other
        rw [incoming_eq_outgoing s other]
    | poll e' =>
      rw [snd_step_of_takes (e := e') present (.inr rfl), outgoing_setIncoming, Act.onPipe]
      split
      · rfl
      · rename_i other
        rw [incoming_eq_outgoing s other]
    | close e' =>
      rw [step, if_neg dropped]
      simp only [StreamPair.close, outgoing_setOutgoing, Act.onPipe]
      split
      · rename_i same
        rw [same]
      · rfl
    | drop e' =>
      rw [step, if_neg dropped]
      simp only [StreamPair.drop, outgoing_setIncoming, Act.onPipe]
      split
      · rename_i same
        rw [same, StreamPair.close, outgoing_setOutgoing, if_pos rfl]
      · rename_i other
        rw [incoming_eq_outgoing _ other, StreamPair.close, outgoing_setOutgoing, if_neg other]

/-- Streams at whose end `e` there is the same to receive, now and later. -/
structure Beside (e : End) (s s' : StreamPair) : Prop where
  incoming : s.incoming e = s'.incoming e
  abandoned : (s.outgoing e).abandoned = (s'.outgoing e).abandoned

namespace Beside

variable {e : End} {s s' : StreamPair}

theorem isDropped (beside : Beside e s s') (e' : End) : s.isDropped e' = s'.isDropped e' := by
  by_cases same : e' = e
  · rw [same, StreamPair.isDropped, StreamPair.isDropped, beside.incoming]
  · simp only [StreamPair.isDropped, incoming_eq_outgoing _ same, beside.abandoned]

theorem abandoned_onPipe {p p' : Pipe Bytes} (same : p.abandoned = p'.abandoned) (a : Act) :
    (a.onPipe e p).abandoned = (a.onPipe e p').abandoned := by
  have sent (bs : Bytes) (p : Pipe Bytes) : ((p.send bs).getD p).abandoned = p.abandoned := by
    unfold Pipe.send
    split <;> rfl
  have received (p : Pipe Bytes) : p.receive.2.abandoned = p.abandoned := by
    unfold Pipe.receive
    split <;> rfl
  cases a <;> simp only [Act.onPipe] <;> split <;>
    simp [sent, received, same, Pipe.close, Pipe.abandon]

theorem step (beside : Beside e s s') (a : Act) : Beside e (s.step a).2 (s'.step a).2 := by
  refine ⟨?_, ?_⟩
  · have incoming : s.outgoing e.other = s'.outgoing e.other := beside.incoming
    rw [StreamPair.incoming, StreamPair.incoming, outgoing_step, outgoing_step,
      beside.isDropped, incoming]
  · rw [outgoing_step, outgoing_step, beside.isDropped]
    split
    · exact beside.abandoned
    · exact abandoned_onPipe beside.abandoned a

/-- Whoever receives or polls there is answered the same. -/
theorem answer (beside : Beside e s s') {a : Act} (takes : a = .receive e ∨ a = .poll e) :
    (s.step a).1 = (s'.step a).1 := by
  have there : a.at = e := by rcases takes with rfl | rfl <;> rfl
  cases dropped : s.isDropped e with
  | true =>
    have dropped' : s'.isDropped e = true := by rw [← beside.isDropped, dropped]
    rw [step_of_dropped (by rwa [there]), step_of_dropped (by rwa [there])]
  | false =>
    have dropped' : s'.isDropped e = false := by rw [← beside.isDropped, dropped]
    cases first : (s.incoming e).queue with
    | nil =>
      have first' : (s'.incoming e).queue = [] := by rw [← beside.incoming, first]
      rcases takes with rfl | rfl
      · rw [step_receive_of_empty dropped first, step_receive_of_empty dropped' first',
          beside.incoming]
      · rw [step_poll_of_empty dropped first, step_poll_of_empty dropped' first', beside.incoming]
    | cons bs queue =>
      have first' : (s'.incoming e).queue = bs :: queue := by rw [← beside.incoming, first]
      rcases takes with rfl | rfl
      · rw [step_receive_of_first dropped first, step_receive_of_first dropped' first']
      · rw [step_poll_of_first dropped first, step_poll_of_first dropped' first']

theorem receipts (beside : Beside e s s') (a : Act) :
    Log.receipts e [(a, (s.step a).1)] = Log.receipts e [(a, (s'.step a).1)] := by
  by_cases takes : a = .receive e ∨ a = .poll e
  · rw [beside.answer takes]
  · cases a <;> simp_all [Log.receipts]

end Beside

theorem beside_close (s : StreamPair) (e : End) : Beside e (s.step (.close e)).2 s := by
  have ne : ¬ e = e.other := (End.other_ne e).symm
  refine ⟨?_, ?_⟩
  · rw [incoming, outgoing_step]
    split
    · rfl
    · exact if_neg ne
  · rw [outgoing_step]
    split
    · rfl
    · rw [Act.onPipe, if_pos rfl]
      rfl

/-- Two logs that tell the same of what was received at an end go on to do so. -/
theorem receipts_after {e : End} {t t' : Traffic} (beside : Beside e t.pair t'.pair)
    (same : t.log.receipts e = t'.log.receipts e) (acts : List Act) :
    (t.after acts).log.receipts e = (t'.after acts).log.receipts e := by
  induction acts generalizing t t' with
  | nil => exact same
  | cons a acts ih =>
    refine ih (beside.step a) ?_
    show Log.receipts e (t.log ++ _) = Log.receipts e (t'.log ++ _)
    rw [Log.receipts_concat, Log.receipts_concat, same, beside.receipts a]

/-! ## What is delivered -/

structure Traffic.Delivers (t : Traffic) : Prop where
  /-- A message can be sent as long as neither this end was closed or given up, nor the other one
  was given up. -/
  sends : ∀ e m, (t.pair.step (.send e m)).1 = .done ↔
    ¬ t.log.ClosedBy e ∧ ¬ t.log.DroppedBy e.other
  /-- What was taken out is what was sent, in order, each message as it arrives. -/
  order : ∀ e, t.log.takenAt e <+: (t.log.sentFrom e.other).map arrival
  /-- It arrives unchanged, if it fits the wire format. -/
  unchanged : ∀ m, (Message.codec.encode m).length < wireLimit → arrival m = .ok m
  /-- As long as not all of it was taken out, there is the next message to take. -/
  next : ∀ e m, ¬ t.log.DroppedBy e → (t.log.sentFrom e.other)[(t.log.takenAt e).length]? = some m →
    (t.pair.step (.receive e)).1 = .ofArrival (arrival m) ∧
      (t.pair.step (.poll e)).1 = .ofArrival (arrival m)
  /-- The stream is over at an end exactly when all of it was taken out, and the other end was
  closed or given up. -/
  ended : ∀ e, ((t.pair.step (.receive e)).1 = .received .endOfStream ↔
      ¬ t.log.DroppedBy e ∧ t.log.takenAt e = (t.log.sentFrom e.other).map arrival ∧
        t.log.ClosedBy e.other) ∧
    ((t.pair.step (.poll e)).1 = .failed .disconnected ↔
      ¬ t.log.DroppedBy e ∧ t.log.takenAt e = (t.log.sentFrom e.other).map arrival ∧
        t.log.ClosedBy e.other)
  /-- That an end was closed makes no difference to what is received there, then or later. -/
  closing : ∀ e later, ((t.act (.close e)).after later).log.receipts e =
    (t.after later).log.receipts e

namespace Traffic

variable {t : Traffic}

theorem Fair.incoming (fair : t.Fair) (e : End) :
    (t.pair.incoming e).Carries (t.log.sentFrom e.other) (t.log.takenAt e)
      (t.log.ClosedBy e.other) (t.log.DroppedBy e) := by
  have carries := fair e.other
  rwa [End.other_other] at carries

theorem Fair.sends (fair : t.Fair) (e : End) (m : Message) :
    (t.pair.step (.send e m)).1 = .done ↔ ¬ t.log.ClosedBy e ∧ ¬ t.log.DroppedBy e.other := by
  cases dropped : t.pair.isDropped e with
  | true =>
    have closed : t.log.ClosedBy e := .inr ((fair.isDropped_iff e).1 dropped)
    rw [step_of_dropped dropped]
    simp [closed]
  | false =>
    rw [step_send dropped, ← (fair e).closed, ← (fair e).abandoned]
    cases (t.pair.outgoing e).closed <;> cases (t.pair.outgoing e).abandoned <;> simp

theorem Fair.next (fair : t.Fair) {e : End} {m : Message} (stays : ¬ t.log.DroppedBy e)
    (waits : (t.log.sentFrom e.other)[(t.log.takenAt e).length]? = some m) :
    (t.pair.step (.receive e)).1 = .ofArrival (arrival m) ∧
      (t.pair.step (.poll e)).1 = .ofArrival (arrival m) := by
  have present := Bool.eq_false_iff.2 (mt (fair.isDropped_iff e).1 stays)
  obtain ⟨rest, order, queue⟩ := (fair.incoming e).order
  cases rest with
  | nil =>
    have short := congrArg List.length order
    have long := (List.getElem?_eq_some_iff.1 waits).1
    simp at short
    omega
  | cons m' rest =>
    have same : arrival m = arrival m' := by
      have there := congrArg (·[(t.log.takenAt e).length]?) order
      simpa [waits] using there
    have first := queue stays
    rw [List.map_cons] at first
    rw [step_receive_of_first present first, step_poll_of_first present first, same]
    exact ⟨rfl, rfl⟩

theorem Fair.ended (fair : t.Fair) (e : End) :
    ((t.pair.step (.receive e)).1 = .received .endOfStream ↔
      ¬ t.log.DroppedBy e ∧ t.log.takenAt e = (t.log.sentFrom e.other).map arrival ∧
        t.log.ClosedBy e.other) ∧
    ((t.pair.step (.poll e)).1 = .failed .disconnected ↔
      ¬ t.log.DroppedBy e ∧ t.log.takenAt e = (t.log.sentFrom e.other).map arrival ∧
        t.log.ClosedBy e.other) := by
  cases dropped : t.pair.isDropped e with
  | true =>
    have gone := (fair.isDropped_iff e).1 dropped
    rw [step_of_dropped dropped, step_of_dropped dropped]
    simp [gone]
  | false =>
    have stays : ¬ t.log.DroppedBy e := by simp [← fair.isDropped_iff, dropped]
    have carries := fair.incoming e
    rw [← carries.queue_eq_nil_iff stays, ← carries.closed]
    cases first : (t.pair.incoming e).queue with
    | nil =>
      rw [step_receive_of_empty dropped first, step_poll_of_empty dropped first]
      cases (t.pair.incoming e).closed <;> simp [stays]
    | cons bs queue =>
      rw [step_receive_of_first dropped first, step_poll_of_first dropped first]
      cases Message.codec.decode bs <;> simp [ofArrival_ok, ofArrival_error]

end Traffic

/-- Whatever was done with a stream, it delivers what it should. -/
theorem delivers_of_acts (acts : List Act) : (({} : Traffic).after acts).Delivers := by
  have fair := Traffic.fair_fresh.after acts
  refine ⟨fair.sends, fun e => ?_, fun m => arrival_eq, fun e m => fair.next, fair.ended,
    fun e later => ?_⟩
  · obtain ⟨rest, order, _⟩ := (fair.incoming e).order
    exact ⟨rest.map arrival, order.symm⟩
  · refine receipts_after (beside_close _ e) ?_ later
    show Log.receipts e (_ ++ _) = _
    rw [Log.receipts_concat]
    exact List.append_nil _

end StreamPair

end ContractNode
