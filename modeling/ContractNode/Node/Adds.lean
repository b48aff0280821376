import ContractNode.Node.Settle

/-!
# What the parts of a turn add

Whatever a turn does, it does by a few operations on sessions. Each of them adds a bounded number to
the turns that are left, and none of them starts or stops a loop.

* `Session.frame` : what only the turns of a session change;
* `Node.Adds k` : adds no more than `k`, and leaves the loops where they are;
* `adds_serve`, `adds_handle` : a request that is served, and a message that is shown to a
  lifecycle, which adds less than the message weighs;
* `adds_endSession` : a session that ends.
-/

namespace ContractNode

/-! ## Sessions -/

namespace Session

/-- What only the turns of a session change: where its loops are, and how many workers it has. -/
def frame (s : Session) : Loop × Loop × Nat := (s.inbound, s.outbound, s.pool.size)

theorem frame_notify (s : Session) (m : Message) : (s.notify m).frame = s.frame := by
  rw [notify]; split <;> rfl

theorem weight_notify (s : Session) (m : Message) : (s.notify m).weight = s.weight := by
  rw [notify]; split <;> rfl

theorem frame_enqueue (s : Session) (c : Command) : (s.enqueue c).2.frame = s.frame := by
  rw [enqueue]; split <;> rfl

theorem weight_enqueue (s : Session) (c : Command) :
    (s.enqueue c).2.weight ≤ s.weight + c.message.kind.weight := by
  rw [enqueue]
  split
  · exact Nat.le_add_right ..
  · simp only [weight, loopWeight, total_append, total_cons, total_nil, instructionWeight]
    omega

theorem frame_announce (s : Session) : s.announce.frame = s.frame := by
  rw [announce]
  split
  · rfl
  · exact frame_enqueue ..

theorem weight_announce (s : Session) : s.announce.weight ≤ s.weight + 1 := by
  rw [announce]
  split
  · exact Nat.le_add_right ..
  · exact weight_enqueue ..

theorem frame_of_send {s s' : Session} {m : Message} (h : s.send m = .ok s') :
    s'.frame = s.frame ∧ s'.weight = s.weight := by
  rw [send] at h
  split at h
  · cases h
  · rename_i link sent
    cases h
    rw [Link.send] at sent
    split at sent
    · cases sent
    · split at sent
      · cases sent
      · cases sent
        exact ⟨rfl, rfl⟩

theorem frame_sendAnyway (s : Session) (m : Message) :
    (s.sendAnyway m).frame = s.frame ∧ (s.sendAnyway m).weight = s.weight := by
  rw [sendAnyway]
  cases h : s.send m with
  | error e => exact ⟨rfl, rfl⟩
  | ok s' => exact frame_of_send h

theorem frame_of_submit {s s' : Session} {job : Job} (h : s.submit job = .ok s') :
    s'.frame = s.frame ∧ s'.weight ≤ s.weight + 7 := by
  rw [submit] at h
  split at h
  · rename_i pool submitted
    cases h
    rw [WorkerPool.submit] at submitted
    split at submitted
    · cases submitted
      refine ⟨rfl, ?_⟩
      simp only [weight, loopWeight, total_append, total_cons, total_nil, taskWeight]
      omega
    · cases submitted
  · cases h

theorem frame_stop (s : Session) : s.stop.frame = s.frame := by
  simp only [frame, stop, WorkerPool.shutdown]
  split <;> rfl

theorem weight_stop (s : Session) : s.stop.weight ≤ s.weight + (s.pool.size + 1) := by
  have commands : total instructionWeight s.stop.commands ≤
      total instructionWeight s.commands + 1 := by
    simp only [stop]
    split
    · simp
    · simp [instructionWeight]
  have tasks : total taskWeight s.stop.pool.queue ≤
      total taskWeight s.pool.queue + s.pool.size := by
    simp only [stop, WorkerPool.shutdown]
    split
    · simp [taskWeight]
    · exact Nat.le_add_right ..
  have loops (l : Loop) : s.stop.loopWeight l = s.loopWeight l := by
    have size : s.stop.pool.size = s.pool.size := congrArg (·.2.2) (frame_stop s)
    cases l <;> simp [loopWeight, size]
  have inbox : s.stop.link.inbox = s.link.inbox := rfl
  have dials : s.stop.dials = s.dials := rfl
  have parked : s.stop.parked = s.parked := rfl
  have inbound : s.stop.inbound = s.inbound := rfl
  have outbound : s.stop.outbound = s.outbound := rfl
  simp only [weight, loops, inbox, dials, parked, inbound, outbound]
  omega

theorem weight_dial (s : Session) (m : Message) : (s.dial m).weight = s.weight + 7 := by
  simp only [weight, loopWeight, dial, List.length_append, List.length_singleton]
  omega

end Session

namespace Node

theorem total_modify {α : Type} {w : α → Nat} {f : α → α} {k : Nat} {l : List α} {i : Nat}
    (h : ∀ a, l[i]? = some a → w (f a) ≤ w a + k) :
    total w (l.modify i f) ≤ total w l + k := by
  induction l generalizing i with
  | nil => simp
  | cons a l ih =>
    cases i with
    | zero =>
      have := h a rfl
      simp
      omega
    | succ i =>
      have := ih fun b hb => h b hb
      simp
      omega

theorem map_modify {α β : Type} {g : α → β} {f : α → α} {l : List α} {i : Nat}
    (h : ∀ a, l[i]? = some a → g (f a) = g a) : (l.modify i f).map g = l.map g := by
  induction l generalizing i with
  | nil => simp
  | cons a l ih =>
    cases i with
    | zero => simp [h a rfl]
    | succ i => simp [ih fun b hb => h b hb]

/-- What a part of a turn does to a node: it adds no more than `k` to the turns that are left, and
leaves the loops of all sessions where they are. -/
structure Adds (k : Nat) (n n' : Node) : Prop where
  frame : n'.sessions.map Session.frame = n.sessions.map Session.frame
  weight : n'.weight ≤ n.weight + k

namespace Adds

theorem refl (k : Nat) (n : Node) : Adds k n n := ⟨rfl, Nat.le_add_right ..⟩

theorem trans {k k' : Nat} {n n' n'' : Node} (h : Adds k n n') (h' : Adds k' n' n'') :
    Adds (k + k') n n'' :=
  ⟨h'.frame.trans h.frame, by have := h.weight; have := h'.weight; omega⟩

theorem mono {k k' : Nat} {n n' : Node} (h : Adds k n n') (le : k ≤ k') : Adds k' n n' :=
  ⟨h.frame, by have := h.weight; omega⟩

theorem modify {k : Nat} {n : Node} {s : SessionId} {f : Session → Session}
    (h : ∀ ses, n.session? s = some ses →
      (f ses).frame = ses.frame ∧ (f ses).weight ≤ ses.weight + k) :
    Adds k n (n.modify s f) := by
  refine ⟨map_modify fun ses found => (h ses found).1, ?_⟩
  have := total_modify (fun ses found => (h ses found).2) (w := Session.weight)
  simp only [Node.weight, Node.modify]
  omega

theorem modify_same {n : Node} {s : SessionId} {f : Session → Session}
    (frame : ∀ ses, (f ses).frame = ses.frame) (weight : ∀ ses, (f ses).weight = ses.weight) :
    Adds 0 n (n.modify s f) :=
  modify fun ses _ => ⟨frame ses, Nat.le_of_eq (weight ses)⟩

theorem replace {k : Nat} {n : Node} {s : SessionId} {ses ses' : Session}
    (found : n.session? s = some ses)
    (h : ses'.frame = ses.frame ∧ ses'.weight ≤ ses.weight + k) :
    Adds k n (n.modify s fun _ => ses') :=
  modify fun ses₁ found₁ => by
    cases Option.some.inj (found.symm.trans found₁)
    exact h

theorem session {k : Nat} {n n' : Node} (h : Adds k n n') {s : SessionId} {ses : Session}
    (found : n.session? s = some ses) :
    ∃ ses', n'.session? s = some ses' ∧ ses'.frame = ses.frame := by
  have same := congrArg (·[s]?) h.frame
  simp only [List.getElem?_map] at same
  rw [show n.sessions[s]? = some ses from found] at same
  exact Option.map_eq_some_iff.1 same

end Adds

/-! ## Parts of turns -/

theorem adds_modifyContext (n : Node) (s : SessionId) (c : Nat) (f : Context → Context) :
    Adds 0 n (n.modifyContext s c f) := Adds.modify_same (fun _ => rfl) fun _ => rfl

theorem adds_deregister (n : Node) (s : SessionId) : Adds 0 n (n.deregister s) := by
  rw [deregister]
  split
  · exact .refl ..
  · split
    · have left : Adds 0 n (n.modify s fun ses => { ses with isRegistered := false }) :=
        Adds.modify_same (fun _ => rfl) fun _ => rfl
      split
      · exact left
      · exact ⟨left.frame, left.weight⟩
    · exact .refl ..

theorem adds_send (n : Node) (s : SessionId) (m : Message) : Adds 0 n (n.send s m).2 := by
  rw [send]
  split
  · exact .refl ..
  · rename_i ses found
    cases sent : ses.send m with
    | error e => exact .refl ..
    | ok ses' =>
      have := Session.frame_of_send sent
      exact .replace found ⟨this.1, Nat.le_of_eq this.2⟩

theorem adds_register (n : Node) (s : SessionId) (m : Message) : Adds 0 n (n.register s m).2 := by
  rw [register]
  split
  · exact .refl ..
  · rename_i id _
    simp only
    split
    · exact .refl ..
    · rename_i directory _
      have kept : Adds 0 n ({ n with directory }.modify s fun ses =>
          { ses with
            isRegistered := true, identity := some id
            place := some (ContractInstance.ofName id.name) }) :=
        have same := Adds.modify_same (n := { n with directory }) (s := s)
          (f := fun ses => { ses with
            isRegistered := true, identity := some id
            place := some (ContractInstance.ofName id.name) }) (fun _ => rfl) fun _ => rfl
        ⟨same.frame, same.weight⟩
      have told := kept.trans (adds_send _ s { kind := .registered })
      split
      · rename_i failed
        rw [failed] at told
        exact told.trans (adds_deregister ..)
      · rename_i done
        rw [done] at told
        exact told

theorem adds_answer (n : Node) (s : SessionId) (job : Job) (result : Except SessionError Bytes) :
    Adds 1 n (n.answer s job result) := by
  refine Adds.modify fun ses _ => ?_
  have light : (reply job.message result).kind.weight = 1 := by cases result <;> rfl
  cases job.kind.route with
  | direct =>
    have := Session.frame_sendAnyway
      { ses with transactions := ses.transactions.unmark job.message.channel job.message.tx }
      (reply job.message result)
    exact ⟨this.1, Nat.le_succ_of_le (Nat.le_of_eq this.2)⟩
  | outbound =>
    refine ⟨Session.frame_enqueue .., ?_⟩
    have bound : _ ≤ _ + (reply job.message result).kind.weight := Session.weight_enqueue
      { ses with transactions := ses.transactions.unmark job.message.channel job.message.tx }
      { message := reply job.message result, forward := true }
    rw [light] at bound
    exact bound

theorem adds_enroll (n : Node) (s : SessionId) (c : Context) (tx : String) :
    Adds 0 n (n.enroll s c tx).2 := by
  rw [enroll]
  split
  · exact .refl ..
  · split
    · exact .refl ..
    · exact Adds.modify_same (fun _ => rfl) fun _ => rfl

theorem adds_enqueue (n : Node) (s : SessionId) (c : Command) :
    Adds c.message.kind.weight n (n.enqueue s c).2 := by
  rw [enqueue]
  split
  · exact .refl ..
  · exact Adds.modify fun ses _ => ⟨ses.frame_enqueue c, ses.weight_enqueue c⟩

theorem adds_deleteContext (n : Node) (s : SessionId) (channel tx : String) :
    Adds 0 n (n.deleteContext s channel tx) := Adds.modify_same (fun _ => rfl) fun _ => rfl

theorem adds_discard (n : Node) (s : SessionId) (no : Nat) (c : Context) :
    Adds 0 n (n.discard s no c) :=
  (adds_modifyContext ..).trans (adds_deleteContext ..)

theorem adds_begin (n : Node) (s : SessionId) (c : Context) (m : Message) (origin : Origin) :
    Adds (m.kind.weight + 2) n (n.begin s c m origin).2 := by
  rw [begin]
  have enrolled := adds_enroll n s c m.tx
  split
  · rename_i failed
    rw [failed] at enrolled
    exact enrolled.mono (Nat.zero_le _)
  · rename_i no n' done
    rw [done] at enrolled
    have queued := enrolled.trans (adds_enqueue n' s { message := m, forward := true })
    rw [Nat.zero_add] at queued
    split
    · rename_i failed
      rw [failed] at queued
      exact (queued.trans (adds_discard ..)).mono (Nat.le_add_right ..)
    · rename_i done
      rw [done] at queued
      refine ⟨queued.frame, ?_⟩
      have := queued.weight
      simp only [Node.weight, List.length_append, List.length_singleton] at this ⊢
      omega

/-! ## Requests -/

theorem adds_commit (n : Node) (r : Except LedgerError Ledger) : Adds 0 n (n.commit r).2 := by
  cases r <;> exact ⟨rfl, Nat.le_refl _⟩

theorem adds_openCursor (n : Node) (s : SessionId) (c max : Nat) (ctx : Context)
    (r : Except LedgerError Scan) : Adds 0 n (n.openCursor s c max ctx r).2 := by
  cases r with
  | error e => exact .refl ..
  | ok scan =>
    have kept := adds_modifyContext n s c fun ctx' => { ctx' with
      cursors := (ctx.cursors.openCursor max (cursorId n.cursorCount) scan).2 }
    exact ⟨kept.frame, kept.weight⟩

/-- A request that is answered or waits for a key has added nothing so far; one that waits for a
called contract has begun an execution. -/
theorem adds_callSession (n : Node) (i : Invocation) (origin : Origin)
    (plain : i.message.kind = .transaction) : Adds 3 n (n.callSession i origin).2 := by
  rw [callSession]
  split
  · exact .refl ..
  · split
    · exact .refl ..
    · rename_i s _
      have begun : Adds 3 n (n.beginCall s i origin).2 := by
        rw [beginCall]
        split
        · exact .refl ..
        · rename_i m c made
          have kind : m.kind = .transaction := (kind_of_called made).trans plain
          have := adds_begin n s c m origin
          rw [kind] at this
          exact this
      split
      · rename_i failed
        rw [failed] at begun
        exact begun
      · rename_i done
        rw [done] at begun
        exact begun

theorem adds_invoke (n : Node) (s : SessionId) (ses : Session) (c : Nat) (ctx : Context)
    (m : Message) (spec : CallSpec) : Adds 3 n (n.invoke s ses c ctx m spec).2 := by
  rw [invoke]
  simp only
  split
  · exact .refl ..
  · split
    · exact .refl ..
    · split
      · exact .refl ..
      · exact adds_callSession _ _ _ rfl

theorem adds_withRight {k : Nat} {n : Node} {ses : Session} {ctx : Context}
    {f : Simulator → String → Outcome × Node} (h : ∀ sim space, Adds k n (f sim space).2) :
    Adds k n (n.withRight ses ctx f).2 := by
  rw [withRight]
  split
  · exact .refl ..
  · split
    · exact .refl ..
    · exact h ..

theorem adds_withHistory {k : Nat} {n : Node} {ses : Session} {ctx : Context}
    {f : Historian → String → Outcome × Node} (h : ∀ right space, Adds k n (f right space).2) :
    Adds k n (n.withHistory ses ctx f).2 := by
  rw [withHistory]
  split
  · exact .refl ..
  · split
    · exact .refl ..
    · exact h ..

theorem adds_perform (n : Node) (s : SessionId) (ses : Session) (c : Nat) (ctx : Context)
    (job : Job) (r : Request) : Adds 3 n (n.perform s ses c ctx job r).2 := by
  cases r with
  | get r =>
    refine adds_withRight fun sim space => ?_
    split <;> exact .refl ..
  | put w => exact adds_withRight fun sim space => (adds_commit ..).mono (Nat.zero_le _)
  | delete r => exact adds_withRight fun sim space => (adds_commit ..).mono (Nat.zero_le _)
  | range r => exact adds_withRight fun sim space => (adds_openCursor ..).mono (Nat.zero_le _)
  | query q => exact adds_withRight fun sim space => (adds_openCursor ..).mono (Nat.zero_le _)
  | history r => exact adds_withHistory fun h space => (adds_openCursor ..).mono (Nat.zero_le _)
  | next r => exact (adds_modifyContext ..).mono (Nat.zero_le _)
  | close r => exact (adds_modifyContext ..).mono (Nat.zero_le _)
  | invoke spec => exact adds_invoke ..

theorem adds_attempt (n : Node) (s : SessionId) (ses : Session) (job : Job) :
    Adds 3 n (n.attempt s ses job).2 := by
  rw [attempt]
  split
  · exact .refl ..
  · split
    · exact .refl ..
    · split
      · exact .refl ..
      · exact adds_perform ..

theorem adds_serve (n : Node) (s : SessionId) (job : Job) : Adds 4 n (n.serve s job).2 := by
  rw [serve]
  split
  · exact .refl ..
  · rename_i ses found
    split
    · exact .refl ..
    · rename_i transactions _
      have marked : Adds 0 n (n.modify s fun _ => { ses with transactions }) :=
        .replace found ⟨rfl, Nat.le_refl _⟩
      have tried := marked.trans (adds_attempt _ s { ses with transactions } job)
      simp only
      split
      · rename_i outcome
        rw [outcome] at tried
        exact tried.trans (adds_answer ..)
      · rename_i outcome
        rw [outcome] at tried
        exact tried.mono (by decide)
      · rename_i outcome
        rw [outcome] at tried
        exact tried.mono (by decide)

theorem adds_submit (n : Node) (s : SessionId) (job : Job) : Adds 7 n (n.submit s job).2 := by
  rw [submit]
  split
  · exact .refl ..
  · rename_i ses found
    split
    · exact .refl ..
    · rename_i ses' submitted
      exact .replace found (Session.frame_of_submit submitted)

/-! ## Lifecycles -/

theorem adds_before (s : SessionId) (event : Event) (phase : Phase) (m : Message) (n : Node) :
    Adds 0 n (Hooks.run ((hooks s).before event) phase m n).2 := by
  cases event <;> try exact .refl ..
  have registered := adds_register n s m
  simp only [hooks, Hooks.run]
  split
  · rename_i failed
    rw [failed] at registered
    exact registered
  · rename_i done
    rw [done] at registered
    exact registered

def enterCost : Phase → Nat
  | .established => 1
  | .created | .ready | .ended => 0

theorem adds_enter (s : SessionId) (entered phase : Phase) (m : Message) (n : Node) :
    Adds (enterCost entered) n (Hooks.run ((hooks s).enter entered) phase m n).2 := by
  cases entered with
  | created => exact .refl ..
  | established => exact Adds.modify fun ses _ => ⟨ses.frame_announce, ses.weight_announce⟩
  | ready => exact Adds.modify_same (fun ses => ses.frame_notify m) fun ses => ses.weight_notify m
  | ended =>
    have told : Adds 0 n (n.modify s fun ses => (ses.notify m).notifyAll) :=
      Adds.modify_same (fun ses => ses.frame_notify m) fun ses => ses.weight_notify m
    exact told.trans (adds_deregister ..)

/-- What is done after an event adds. -/
def afterCost (event : Event) : Nat := if (RequestKind.ofEvent? event).isSome then 7 else 0

theorem adds_after (s : SessionId) (event : Event) (phase : Phase) (m : Message) (n : Node) :
    Adds (afterCost event) n (Hooks.run ((hooks s).after event) phase m n).2 := by
  cases event <;> first
    | exact .refl ..
    | exact adds_submit ..
    | exact Adds.modify fun ses _ => ⟨rfl, Nat.le_of_eq (ses.weight_dial m)⟩

def eventCost (event : Event) : Nat := (if event = .registered then 1 else 0) + afterCost event

theorem adds_raise (s : SessionId) (event : Event) (m : Message) (phase : Phase) (n : Node) :
    Adds (eventCost event) n ((hooks s).raise event m phase n).2.2 := by
  have before := adds_before s event phase m n
  rw [Hooks.raise]
  split
  · exact .refl ..
  · rename_i target reached
    split
    · rename_i failed
      rw [failed] at before
      exact before.mono (Nat.zero_le _)
    · rename_i n₁ done
      rw [done] at before
      have entered : Adds (if event = .registered then 1 else 0) n₁
          (if phase = target then ((.ok (), n₁) : Except LifecycleError Unit × Node)
            else (hooks s).runEnter target m n₁).2 := by
        by_cases same : phase = target
        · rw [if_pos same]
          exact .refl ..
        · rw [if_neg same, Hooks.runEnter_snd]
          refine (adds_enter ..).mono ?_
          cases target with
          | established => rw [if_pos (Phase.eq_registered_of_next? reached)]; exact Nat.le_refl _
          | created | ready | ended => exact Nat.zero_le _
      have sofar := before.trans entered
      rw [Nat.zero_add] at sofar
      split
      · rename_i failed
        rw [failed] at sofar
        exact sofar.mono (Nat.le_add_right ..)
      · rename_i n₂ done₂
        rw [done₂] at sofar
        have followed := sofar.trans (adds_after s event target m n₂)
        rw [← Hooks.runAfter_snd] at followed
        exact followed

theorem eventCost_lt {kind : MessageKind} {event : Event} (h : Event.ofKind? kind = some event) :
    eventCost event < kind.weight := by
  cases kind <;> cases h <;> decide

theorem adds_setPhase (n : Node) (s : SessionId) (phase : Phase) : Adds 0 n (n.setPhase s phase) :=
  Adds.modify_same (fun _ => rfl) fun _ => rfl

/-- Showing a message to a lifecycle adds less than the message weighs. -/
theorem adds_handle (n : Node) (s : SessionId) (m : Message) :
    Adds (m.kind.weight - 1) n (n.handle s m) := by
  rw [handle]
  split
  · exact .refl ..
  · split
    · exact (Adds.modify_same (fun ses => ses.frame_notify m) fun ses =>
        ses.weight_notify m).mono (Nat.zero_le _)
    · split
      · exact .refl ..
      · rename_i ses _ _ _ event raised
        have done := adds_raise s event m ses.phase n
        have small := eventCost_lt raised
        exact (done.trans (adds_setPhase ..)).mono (by omega)

/-- Ending a session adds the orders to stop. -/
theorem adds_endSession {n : Node} {s : SessionId} {ses : Session}
    (found : n.session? s = some ses) : Adds (ses.pool.size + 1) n (n.endSession s) := by
  rw [endSession, found]
  simp only
  have ended : Adds 0 n ((hooks s).terminate { kind := .error, payload := Session.farewell }
      ses.phase n).2.2 := by
    rw [Hooks.terminate]
    split
    · exact .refl ..
    · have entered := adds_enter s .ended .ended { kind := .error, payload := Session.farewell } n
      rw [← Hooks.runEnter_snd] at entered
      split
      · rename_i failed
        rw [failed] at entered
        exact entered
      · rename_i done
        rw [done] at entered
        exact entered
  generalize (hooks s).terminate { kind := .error, payload := Session.farewell } ses.phase n = t
    at ended ⊢
  obtain ⟨_, phase, n₁⟩ := t
  have freed := (ended.trans (adds_setPhase n₁ s phase)).trans (adds_deregister _ s)
  obtain ⟨ses', found', same⟩ := freed.session found
  have size : ses'.pool.size = ses.pool.size := congrArg (·.2.2) same
  refine (freed.trans (Adds.modify fun ses₁ found₁ => ?_)).mono (Nat.le_of_eq (Nat.zero_add _))
  cases Option.some.inj (found'.symm.trans found₁)
  exact ⟨ses'.frame_stop, size ▸ ses'.weight_stop⟩

end Node

end ContractNode
