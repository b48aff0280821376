import ContractNode.Proofs.Moves

/-!
# What outbound loops are given to do

* `Node.Ordered` : a command stands in the queue of a session's outbound loop;
* `Command.IsOwn`, `Node.Starts` : what a node orders by itself: that it is ready, answers, and the
  messages of the executions that begin;
* `Session.Mute` : a session sends nothing more once it has ended;
* `Node.Orders` : nothing is ordered but certain new commands, and sessions that have ended send
  nothing, with one lemma an operation;
* `Ordering`, `orders_move` : where a command comes from that a move orders;
* `origin_of_ordered` : where any command comes from that is queued.
-/

namespace ContractNode

/-- A command that a node gives by itself: it tells the contract that it is ready, or answers. -/
def Command.IsOwn (c : Command) : Prop :=
  c.message.kind = .ready ∨ c.message.kind = .response ∨ c.message.kind = .error

/-- A session sends nothing more once it has ended. -/
def Session.Mute (ses : Session) : Prop := ses.phase = .ended → ses.link.outbox.closed = true

/-- A session is in the same phase, and can send as before. -/
structure Session.Aloud (ses ses' : Session) : Prop where
  phase : ses'.phase = ses.phase
  closed : ses'.link.outbox.closed = ses.link.outbox.closed

/-- A session changes in nothing that has to do with its orders. -/
structure Session.Alike (ses ses' : Session) : Prop extends Session.Aloud ses ses' where
  commands : ses'.commands = ses.commands

namespace Session

variable {ses ses' ses'' : Session}

theorem Aloud.refl (ses : Session) : ses.Aloud ses := ⟨rfl, rfl⟩

theorem Aloud.mute (h : ses.Aloud ses') (mute : ses.Mute) : ses'.Mute := fun ended =>
  h.closed.trans (mute (h.phase.symm.trans ended))

theorem alike_notify (ses : Session) (m : Message) : ses.Alike (ses.notify m) := by
  unfold notify
  split
  · exact ⟨⟨rfl, rfl⟩, rfl⟩
  · exact ⟨⟨rfl, rfl⟩, rfl⟩

theorem alike_linked {m : Message} {link : Link} (sent : ses.link.send m = .ok link) :
    ses.Alike { ses with link } := by
  cases Link.eq_of_send sent
  exact ⟨⟨rfl, rfl⟩, rfl⟩

theorem alike_of_send {m : Message} (sent : ses.send m = .ok ses') : ses.Alike ses' := by
  unfold send at sent
  split at sent
  · cases sent
  · rename_i link done
    cases sent
    exact alike_linked done

theorem alike_sendAnyway (ses : Session) (m : Message) : ses.Alike (ses.sendAnyway m) := by
  unfold sendAnyway
  cases sent : ses.send m with
  | error e => exact ⟨⟨rfl, rfl⟩, rfl⟩
  | ok ses' => exact alike_of_send sent

/-- At most a command is added to the orders of a session. -/
structure Given (ses : Session) (c : Command) (ses' : Session) : Prop extends ses.Aloud ses' where
  commands : ses'.commands = ses.commands ∨ ses'.commands = ses.commands ++ [.next c]

theorem Alike.given (h : ses.Alike ses') (c : Command) : ses.Given c ses' :=
  ⟨h.toAloud, .inl h.commands⟩

theorem given_enqueue (ses : Session) (c : Command) : ses.Given c (ses.enqueue c).2 := by
  unfold enqueue
  split
  · exact ⟨.refl ses, .inl rfl⟩
  · exact ⟨⟨rfl, rfl⟩, .inr rfl⟩

/-- What tells the contract that the node is ready. -/
def readiness : Command := { message := { kind := .ready }, forward := true }

theorem given_announce (ses : Session) : ses.Given readiness ses.announce := by
  unfold announce
  split
  · exact ⟨⟨rfl, rfl⟩, .inl rfl⟩
  · exact given_enqueue ses readiness

end Session

namespace Node

/-- A command stands in the queue of the outbound loop of a session. -/
def Ordered (n : Node) (s : SessionId) (c : Command) : Prop :=
  ∃ ses, n.session? s = some ses ∧ .next c ∈ ses.commands

def Starts (n n' : Node) (s : SessionId) : Prop :=
  ∃ w, n'.calls = n.calls ++ [w] ∧ w.session = s

def Mute (n : Node) : Prop := ∀ s ses, n.session? s = some ses → ses.Mute

/-- Nothing is ordered but certain new commands, and what has ended stays silent. -/
structure Orders (new : SessionId → Command → Prop) (n n' : Node) : Prop where
  ordered : ∀ s c, n'.Ordered s c → n.Ordered s c ∨ new s c
  mute : n.Mute → n'.Mute

variable {new : SessionId → Command → Prop}

namespace Orders

variable {n n' n'' : Node}

theorem refl (n : Node) : Orders new n n := ⟨fun _ _ there => .inl there, id⟩

theorem trans (h : Orders new n n') (h' : Orders new n' n'') : Orders new n n'' := by
  refine ⟨fun s c there => ?_, h'.mute ∘ h.mute⟩
  rcases h'.ordered s c there with there | fresh
  · exact h.ordered s c there
  · exact .inr fresh

theorem modify (n : Node) (s : SessionId) {f : Session → Session}
    (ordered : ∀ ses, n.session? s = some ses → ∀ c, .next c ∈ (f ses).commands →
      .next c ∈ ses.commands ∨ new s c)
    (mute : ∀ ses, n.session? s = some ses → ses.Mute → (f ses).Mute) :
    Orders new n (n.modify s f) := by
  refine ⟨fun t c there => ?_, fun before t ses' found' => ?_⟩
  · obtain ⟨ses', found', queued⟩ := there
    rcases session?_modify_cases found' with ⟨rfl, ses, found, rfl⟩ | ⟨_, found'⟩
    · exact (ordered ses found c queued).imp_left fun queued => ⟨ses, found, queued⟩
    · exact .inl ⟨ses', found', queued⟩
  · rcases session?_modify_cases found' with ⟨rfl, ses, found, rfl⟩ | ⟨_, found'⟩
    · exact mute ses found (before s ses found)
    · exact before t ses' found'

theorem apart (n : Node) (s : SessionId) {f : Session → Session}
    (h : ∀ ses : Session, ses.Alike (f ses)) : Orders new n (n.modify s f) :=
  modify n s (fun ses _ _ queued => .inl ((h ses).commands ▸ queued)) fun ses _ => (h ses).mute

/-- A session is replaced by one that differs in nothing that has to do with orders. -/
theorem replace {s : SessionId} {ses ses' : Session} (found : n.session? s = some ses)
    (alike : ses.Alike ses') : Orders new n (n.modify s fun _ => ses') := by
  refine modify n s (fun ses₁ found₁ c queued => .inl ?_) fun ses₁ found₁ => ?_
  · cases Option.some.inj (found.symm.trans found₁)
    exact alike.commands ▸ queued
  · cases Option.some.inj (found.symm.trans found₁)
    exact alike.mute

theorem outside (sessions : n'.sessions = n.sessions) : Orders new n n' := by
  have same (s : SessionId) : n'.session? s = n.session? s := by
    unfold session?
    rw [sessions]
  refine ⟨fun s c there => ?_, fun mute s ses found => mute s ses ((same s).symm.trans found)⟩
  unfold Ordered at there ⊢
  rw [same] at there
  exact .inl there

theorem order {s : SessionId} {c : Command} (given : new s c) {f : Session → Session}
    (h : ∀ ses : Session, ses.Given c (f ses)) : Orders new n (n.modify s f) := by
  refine modify n s (fun ses _ c' queued => ?_) fun ses _ => (h ses).mute
  rcases (h ses).commands with same | more
  · exact .inl (same ▸ queued)
  · rw [more] at queued
    rcases List.mem_append.1 queued with queued | fresh
    · exact .inl queued
    · cases List.mem_singleton.1 fresh
      exact .inr given

theorem inside (h : Inside n n') : Orders new n n' := by
  have back {s : SessionId} {ses' : Session} (found' : n'.session? s = some ses') :
      ∃ ses, n.session? s = some ses ∧ ses.Alike ses' := by
    cases found : n.session? s with
    | none =>
      rw [h.missing found] at found'
      cases found'
    | some ses =>
      obtain ⟨_, same, inside⟩ := h.session found
      cases Option.some.inj (found'.symm.trans same)
      rw [inside.rest]
      exact ⟨ses, rfl, ⟨rfl, rfl⟩, rfl⟩
  refine ⟨fun s c there => ?_, fun mute s ses' found' => ?_⟩
  · obtain ⟨ses', found', queued⟩ := there
    obtain ⟨ses, found, alike⟩ := back found'
    exact .inl ⟨ses, found, alike.commands ▸ queued⟩
  · obtain ⟨ses, found, alike⟩ := back found'
    exact alike.mute (mute s ses found)

end Orders

/-! ## Registration and the end of a session -/

section Ends

variable {n n' : Node} {s : SessionId}

theorem orders_setPhase {phase : Phase} (live : phase ≠ .ended) (n : Node) (s : SessionId) :
    Orders new n (n.setPhase s phase) :=
  .modify n s (fun _ _ _ => .inl) fun _ _ _ ended => absurd ended live

theorem orders_deregister (n : Node) (s : SessionId) : Orders new n (n.deregister s) := by
  obtain ⟨directory, left⟩ := n.deregister_eq s
  have off : Orders new n (n.modify s fun ses => { ses with isRegistered := false }) :=
    .apart n s fun _ => ⟨⟨rfl, rfl⟩, rfl⟩
  rw [left]
  exact off.trans (.outside rfl)

theorem orders_send (n : Node) (s : SessionId) (m : Message) : Orders new n (n.send s m).2 := by
  unfold Node.send
  split
  · exact .refl n
  · rename_i ses found
    cases sent : ses.send m with
    | error e => exact .refl n
    | ok ses' => exact .replace found (Session.alike_of_send sent)

theorem orders_register (n : Node) (s : SessionId) (m : Message) :
    Orders new n (n.register s m).2 := by
  have listed (id : ContractId) (d : Directory) : Orders new n (n.listed s id d) := by
    have outside : Orders new n { n with directory := d } := .outside rfl
    exact outside.trans (.apart _ s fun _ => ⟨⟨rfl, rfl⟩, rfl⟩)
  have registering := registering_register n s m
  generalize n.register s m = p at registering ⊢
  obtain ⟨outcome, n'⟩ := p
  cases registering with
  | refused e => exact .refl _
  | unsent e free given =>
    rw [given]
    exact (listed ..).trans (orders_deregister ..)
  | told link free sent decoded linked =>
    obtain ⟨ses, found, linked⟩ := linked
    rw [sent, modify_found found]
    exact (listed ..).trans (.replace found (Session.alike_linked linked))

theorem orders_closed (n : Node) (s : SessionId) : Orders new n (n.closed s) := by
  refine (orders_deregister n s).trans (.modify _ s (fun ses _ c queued => .inl ?_)
    fun _ _ _ _ => rfl)
  change Instruction.next c ∈ (if ses.outbound = .stopped then [] else ses.commands ++ [.shutdown])
    at queued
  split at queued
  · cases queued
  · exact (List.mem_append.1 queued).resolve_right (by simp)

theorem orders_endSession (n : Node) (s : SessionId) : Orders new n (n.endSession s) := by
  cases found : n.session? s with
  | none =>
    simp only [endSession, found]
    exact .refl n
  | some ses =>
    rw [endSession_eq found]
    split
    · exact orders_closed n s
    · have told : Orders new n (n.farewelled s) := .apart n s fun ses => by
        have alike := ses.alike_notify { kind := .error, payload := Session.farewell }
        exact ⟨⟨alike.phase, alike.closed⟩, alike.commands⟩
      exact told.trans (orders_closed ..)

theorem orders_stopInbound (n : Node) (s : SessionId) : Orders new n (n.stopInbound s) := by
  have halted : Orders new n (n.modify s fun ses => { ses with inbound := .stopped }) :=
    .apart n s fun _ => ⟨⟨rfl, rfl⟩, rfl⟩
  exact halted.trans (orders_endSession ..)

theorem orders_stopOutbound (n : Node) (s : SessionId) : Orders new n (n.stopOutbound s) :=
  (orders_endSession n s).trans
    (.modify _ s (fun _ _ _ queued => by cases queued) fun _ _ mute => mute)

end Ends

/-! ## Executions -/

section Executions

variable {n n' : Node} {s : SessionId}

theorem orders_began {ses : Session} {c : Context} {m : Message} {origin : Origin}
    (given : new s { message := m, forward := true }) :
    Orders new n (n.began s ses c m origin) := by
  have enrolled : Orders new n (n.modify s fun ses =>
      { ses with
        transactions := ses.transactions.enroll c
        commands := ses.commands ++ [.next { message := m, forward := true }] }) :=
    .order given fun _ => ⟨⟨rfl, rfl⟩, .inr rfl⟩
  exact enrolled.trans (.outside rfl)

theorem orders_abandoned (n : Node) (s : SessionId) (c : Context) :
    Orders new n (n.abandoned s c) := .apart n s fun _ => ⟨⟨rfl, rfl⟩, rfl⟩

theorem orders_started {label : String} {kind : MessageKind} {Q : Context → Prop}
    (started : Started n s label kind Q n')
    (begins : Starts n n' s → ∀ c, new s c) : Orders new n n' := by
  cases started with
  | refused e => exact .outside rfl
  | stopped e => exact (orders_abandoned n s _).trans (.outside rfl)
  | waits m => exact orders_began (begins ⟨_, rfl, rfl⟩ _)

theorem orders_ready {channel tx : String} {signedProposal : Option SignedProposal}
    {proposal : Option Proposal} (given : ∀ c : Command, c.message.kind = .ready → new s c) :
    Orders new n (n.ready s channel tx signedProposal proposal).2 := by
  have readied := readied_ready n s channel tx signedProposal proposal
  generalize n.ready s channel tx signedProposal proposal = r at readied ⊢
  obtain ⟨outcome, n'⟩ := r
  cases readied with
  | refused => exact .refl _
  | stopped => exact .apart n s fun _ => ⟨⟨rfl, rfl⟩, rfl⟩
  | waits m _ _ _ kind => exact .order (given _ kind) fun _ => ⟨⟨rfl, rfl⟩, .inr rfl⟩

theorem orders_released (n : Node) (call : Call) (ctx : Context) (f : Context → Context) :
    Orders new n (n.released call ctx f) := by
  have given_up : Orders new n (n.modify call.session fun ses =>
      { ses with transactions :=
        (ses.transactions.modify call.context f).delete ctx.channel ctx.tx }) :=
    .apart n call.session fun _ => ⟨⟨rfl, rfl⟩, rfl⟩
  exact given_up.trans (.outside rfl)

theorem orders_submit (n : Node) (s : SessionId) (job : Job) :
    Orders new n (n.submit s job).2 := by
  cases found : n.session? s with
  | none =>
    simp only [Node.submit, found]
    exact .refl n
  | some ses =>
    simp only [Node.submit, found, Session.submit]
    split
    · exact .refl n
    · rename_i submitted
      split at submitted
      · cases submitted
        exact .replace found ⟨⟨rfl, rfl⟩, rfl⟩
      · cases submitted

theorem Starts.of_calls {n₁ : Node} {t : SessionId} (h : Starts n n₁ t)
    (same : n'.calls = n₁.calls) : Starts n n' t := by
  obtain ⟨w, begun, here⟩ := h
  exact ⟨w, same.trans begun, here⟩

end Executions

/-! ## Acts that have a session exchange messages -/

section Talkers

theorem orders_openSession (n : Node) (config : SessionConfig) (access : AccessPolicy)
    (launcher : Launcher) : Orders new n (n.openSession config access launcher).2 := by
  refine ⟨fun s c there => .inl ?_, fun mute s ses found ended => ?_⟩
  · obtain ⟨ses, found, queued⟩ := there
    rcases session?_openSession found with there | ⟨_, rfl⟩
    · exact ⟨ses, there, queued⟩
    · cases queued
  · rcases session?_openSession found with there | ⟨_, rfl⟩
    · exact mute s ses there ended
    · cases ended

/-- Of the acts that have a session exchange messages, only one orders something. -/
theorem orders_talker (n : Node) {a : Act} {s : SessionId} (talker : a.talker? = some s)
    (triggers : ∀ m forward, a = .trigger s m forward → new s { message := m, forward }) :
    Orders new n (n.act a) := by
  have arriving (s : SessionId) (arrival : Except StreamError Message) :
      Orders new n (n.fromContract s arrival).2 := by
    unfold fromContract
    split
    · exact .refl n
    · rename_i ses found
      cases delivered : ses.link.deliver arrival with
      | error e => exact .refl n
      | ok link =>
        have closed : link.outbox.closed = ses.link.outbox.closed := by
          unfold Link.deliver at delivered
          split at delivered
          · cases delivered
          · cases delivered
            rfl
        simp only [modifyLink]
        rw [modify_found found fun ses => { ses with link }]
        exact .replace found ⟨⟨rfl, closed⟩, rfl⟩
  cases a with
  | contractSends t m => exact arriving t (.ok m)
  | breakReceive t e => exact arriving t (.error e)
  | contractReads t =>
    show Orders new n (n.drain t).2
    unfold drain
    split
    · exact .refl n
    · exact .apart n t fun _ => ⟨⟨rfl, rfl⟩, rfl⟩
  | contractCloses | contractDrops | breakSend | awaitReady | dropReady =>
    exact .apart n _ fun _ => ⟨⟨rfl, rfl⟩, rfl⟩
  | trigger t m forward =>
    cases talker
    show Orders new n (n.enqueue s { message := m, forward }).2
    unfold enqueue
    split
    · exact .refl n
    · exact .order (triggers m forward rfl) fun ses => ses.given_enqueue _
  | send t m => exact orders_send n t m
  | pollReady t =>
    show Orders new n (n.pollReady t).2
    unfold pollReady
    split
    · exact .apart n t fun _ => ⟨⟨rfl, rfl⟩, rfl⟩
    · exact .refl n
  | _ => cases talker

end Talkers

/-! ## Messages that are shown -/

section Own

variable (own : ∀ s c, c.IsOwn → new s c)

include own

section Answers

variable {n n' : Node} {s : SessionId}

theorem orders_reply (n : Node) (s : SessionId) (kind : RequestKind) (m : Message)
    (result : Except SessionError Bytes) :
    Orders new n (n.modify s (·.reply kind (reply m result))) := by
  have given : new s { message := reply m result, forward := true } :=
    own s _ (.inr (by cases result <;> simp [reply]))
  refine .order given fun ses => ?_
  unfold Session.reply
  cases kind.route with
  | direct => exact (ses.alike_sendAnyway _).given _
  | outbound => exact ses.given_enqueue _

theorem orders_answer (n : Node) (s : SessionId) (job : Job) (result : Except SessionError Bytes) :
    Orders new n (n.answer s job result) := by
  have freed : Orders new n (n.modify s fun ses =>
      { ses with
        transactions := ses.transactions.unmark job.message.channel job.message.tx }) :=
    .apart n s fun _ => ⟨⟨rfl, rfl⟩, rfl⟩
  have answered := freed.trans (orders_reply own _ s job.kind job.message result)
  rw [modify_modify] at answered
  exact answered

theorem orders_deliver (n : Node) (origin : Origin) (result : Except SessionError Message) :
    Orders new n (n.deliver origin result) := by
  cases origin with
  | caller label => exact .outside rfl
  | request s c m => exact orders_answer own n s ⟨.invoke, m⟩ _

theorem orders_finish? {call : Call} (finished : n.finish? call = some n') : Orders new n n' := by
  obtain ⟨ctx, m, _, _, rfl⟩ := finish?_cases finished
  exact (orders_released n call ctx _).trans (orders_deliver own _ call.origin _)

theorem orders_expire (n : Node) (call : Call) : Orders new n (n.expire call) := by
  rcases n.expire_cases call with ⟨_, expired⟩ | ⟨ctx, _, expired⟩
  · rw [expired]
    exact .outside rfl
  · rw [expired]
    exact (orders_released n call ctx _).trans (orders_deliver own _ call.origin _)

end Answers

/-! ## Requests -/

section Requests

variable {n n' : Node} {s : SessionId} {job : Job}

/-- A request is answered, and a call may begin an execution. -/
theorem orders_serve
    (begins : ∀ t, Starts n (n.serve s job).2 t → ∀ c, new t c) :
    Orders new n (n.serve s job).2 := by
  cases found : n.session? s with
  | none =>
    simp only [serve, found]
    exact .refl n
  | some ses =>
    have dealt := dealt_serve found job
    generalize n.serve s job = r at dealt begins ⊢
    obtain ⟨p, n'⟩ := r
    cases dealt with
    | dropped => exact .refl _
    | answered free inside => exact (Orders.inside inside).trans (orders_reply own ..)
    | @stored _ _ _ _ l =>
      have written : Orders new n { n with ledger := l } := .outside rfl
      exact written.trans (orders_reply own ..)
    | parked => exact .apart n s fun _ => ⟨⟨rfl, rfl⟩, rfl⟩
    | @calling t =>
      have claimed : Orders new n (n.modify s (·.claim job.message.key)) :=
        .apart n s fun _ => ⟨⟨rfl, rfl⟩, rfl⟩
      exact claimed.trans (orders_began (begins t ⟨_, rfl, rfl⟩ _))

theorem orders_dial {m : Message} (begins : ∀ t, Starts n (n.dial s m) t → ∀ c, new t c) :
    Orders new n (n.dial s m) := by
  have started : Orders new n (n.modify s (·.pickUp m)) :=
    .apart n s fun _ => ⟨⟨rfl, rfl⟩, rfl⟩
  exact started.trans (orders_serve own begins)

theorem orders_handle (n : Node) (s : SessionId) (m : Message) :
    Orders new n (n.handle s m) := by
  have handled := handled_handle n s m
  generalize n.handle s m = n' at handled ⊢
  cases handled with
  | missing | ignored => exact .refl _
  | passes => exact .apart n s fun ses => ses.alike_notify m
  | registers _ _ registered =>
    have kept : Orders new n (n.register s m).2 := orders_register n s m
    rw [registered] at kept
    have announced := kept.trans (.order (own s Session.readiness (.inl rfl))
      Session.given_announce)
    exact announced.trans (orders_setPhase Phase.noConfusion ..)
  | refused _ _ refused =>
    have kept : Orders new n (n.register s m).2 := orders_register n s m
    rw [refused] at kept
    exact kept.trans (orders_setPhase Phase.noConfusion ..)
  | readies =>
    have told : Orders new n (n.modify s (·.notify m)) :=
      .apart n s fun ses => ses.alike_notify m
    exact told.trans (orders_setPhase Phase.noConfusion ..)
  | calls => exact .apart n s fun _ => ⟨⟨rfl, rfl⟩, rfl⟩
  | submits => exact orders_submit ..

end Requests

/-! ## Turns -/

section Turns

variable {n n' : Node} {s : SessionId}

theorem orders_receive? (took : n.receive? s = some n') : Orders new n n' := by
  unfold receive? at took
  split at took
  · cases took
  · split at took
    · split at took
      · cases took
      · cases took
        exact orders_stopInbound n s
      all_goals
        rename_i inbox taken
        have taking : Orders new n (n.modify s (·.withInbox inbox)) :=
          .apart n s fun _ => ⟨⟨rfl, rfl⟩, rfl⟩
        cases took
        refine taking.trans ?_
      · exact orders_stopInbound ..
      · unfold arrive
        split
        · exact .refl _
        · simp only
          split
          · exact (orders_handle own ..).trans (orders_stopInbound ..)
          · exact orders_handle own ..
    · cases took

theorem orders_carryOut (n : Node) (s : SessionId) (c : Command) :
    Orders new n (n.carryOut s c) := by
  have shown : Orders new n (n.handle s c.message) := orders_handle own ..
  unfold carryOut
  simp only
  split
  · split
    · have sending : Orders new _ ((n.handle s c.message).send s c.message).2 := orders_send ..
      rcases sendNow_cases (n.handle s c.message) s c.message with sent | ⟨_, _, _, _, sent⟩
      · rw [sent]
        exact shown.trans (orders_stopOutbound ..)
      · rw [send_of_sendNow sent] at sending
        rw [sent]
        exact shown.trans sending
    · exact shown.trans (.apart _ s fun ses => ses.alike_sendAnyway _)
  · exact shown

theorem orders_command? (took : n.command? s = some n') : Orders new n n' := by
  unfold command? at took
  split at took
  · cases took
  · rename_i ses found
    split at took
    · split at took
      · cases took
      all_goals
        rename_i rest queued
        have taking : Orders new n (n.modify s fun ses => { ses with commands := rest }) := by
          refine .modify n s (fun ses' found' c there => .inl ?_) fun _ _ mute => mute
          cases Option.some.inj (found.symm.trans found')
          rw [queued]
          exact List.mem_cons_of_mem _ there
        cases took
      · exact taking.trans (orders_stopOutbound ..)
      · exact taking.trans (orders_carryOut own ..)
    · cases took

theorem orders_work? (took : n.work? s = some n')
    (begins : ∀ t, Starts n n' t → ∀ c, new t c) : Orders new n n' := by
  unfold work? at took
  split at took
  · cases took
  · split at took
    · cases took
    · cases took
      exact .apart n s fun _ => ⟨⟨rfl, rfl⟩, rfl⟩
    · rename_i job pool taken
      have taking : Orders new n (n.modify s fun ses => { ses with pool }) :=
        .apart n s fun _ => ⟨⟨rfl, rfl⟩, rfl⟩
      have served (begins : ∀ t,
          Starts n ((n.modify s fun ses => { ses with pool }).serve s job).2 t → ∀ c, new t c) :=
        taking.trans (orders_serve own begins)
      generalize (n.modify s fun ses => { ses with pool }).serve s job = r at took served
      obtain ⟨parked, n₁⟩ := r
      cases parked with
      | none | some p =>
        cases took
        exact (served fun t starts => begins t (starts.of_calls rfl)).trans
          (.apart n₁ s fun _ => ⟨⟨rfl, rfl⟩, rfl⟩)

theorem orders_resume? (took : n.resume? s = some n') : Orders new n n' := by
  unfold resume? at took
  split at took
  · cases took
  · obtain ⟨p, _, rfl⟩ := Option.map_eq_some_iff.1 took
    have freed : Orders new n (n.modify s fun ses =>
        { ses with parked := ses.parked.erase p, pool := ses.pool.finish p.job }) :=
      .apart n s fun _ => ⟨⟨rfl, rfl⟩, rfl⟩
    exact freed.trans (orders_answer own ..)

end Turns

/-! ## Acts and moves -/

section Moves

variable {P : Act → Prop} {n n' : Node}

theorem orders_act (n : Node) (a : Act) (once : ∀ span, a ≠ .pass span)
    (begins : ∀ t, Starts n (n.act a) t → ∀ c, new t c)
    (triggers : ∀ s m forward, a = .trigger s m forward → new s { message := m, forward }) :
    Orders new n (n.act a) := by
  cases talker : a.talker? with
  | some s => exact orders_talker n talker (triggers s)
  | none =>
    cases a with
    | openSession config access launcher => exact orders_openSession ..
    | start s =>
      show Orders new n (n.start s).2
      rcases n.start_cases s with same | ⟨ses, _, _, started⟩
      · rw [same]
        exact .refl n
      · rw [started]
        exact .apart n s fun _ => ⟨⟨rfl, rfl⟩, rfl⟩
    | handle s m => exact orders_handle own n s m
    | notify s m => exact .apart n s fun ses => ses.alike_notify m
    | deregister s => exact orders_deregister n s
    | ready s channel tx signedProposal proposal =>
      exact orders_ready fun c kind => own s c (.inl kind)
    | poll s c =>
      show Orders new n (n.poll s c).2
      rcases n.poll_cases s c with ⟨_, polls⟩ | ⟨ctx, _, polls⟩
      · rw [polls]
        exact .refl n
      · rw [polls]
        exact .apart n s fun _ => ⟨⟨rfl, rfl⟩, rfl⟩
    | deleteContext s channel tx => exact .apart n s fun _ => ⟨⟨rfl, rfl⟩, rfl⟩
    | execute s label channel m signedProposal proposal =>
      exact orders_started (started_execute n s label channel m signedProposal proposal) (begins s)
    | run s label i => exact orders_started (started_run n s label i) (begins s)
    | registerKey key s =>
      obtain ⟨directory, given⟩ := n.registerKey_eq key s
      show Orders new n (n.registerKey key s).2
      rw [given]
      exact .outside rfl
    | seed channel tx space collection entries =>
      obtain ⟨ledger, given⟩ := n.seed_eq channel tx space collection entries
      show Orders new n (n.seed channel tx space collection entries).2
      rw [given]
      exact .outside rfl
    | deregisterKey | createChannel | gate | ungate => exact .outside rfl
    | pass span => exact absurd rfl (once span)
    | _ => cases talker

end Moves

end Own

/-- Where a command comes from that a move orders. -/
inductive Ordering (P : Act → Prop) (n n' : Node) (s : SessionId) (c : Command) : Prop
  | own (own : c.IsOwn)
  /-- It is the message of an execution that begins. -/
  | begun (starts : Starts n n' s)
  /-- Somebody from outside has it queued. -/
  | triggered (given : P (.trigger s c.message c.forward))
      (act : n' = n.act (.trigger s c.message c.forward))

section Runs

variable {P : Act → Prop} {n₀ n n' : Node} {s : SessionId} {c : Command}

theorem orders_move (move : Move P n n') : Orders (Ordering P n n') n n' := by
  have own : ∀ s (c : Command), c.IsOwn → Ordering P n n' s c := fun _ _ => .own
  have begins (t : SessionId) (starts : Starts n n' t) (c : Command) : Ordering P n n' t c :=
    .begun starts
  cases move with
  | act a given once =>
    refine orders_act own n a once begins fun s m forward same => ?_
    subst same
    exact .triggered given rfl
  | finish waits finished => exact orders_finish? own finished
  | command took => exact orders_command? own took
  | work took => exact orders_work? own took begins
  | dial => exact orders_dial own begins
  | resume took => exact orders_resume? own took
  | receive took => exact orders_receive? own took
  | expire waits => exact orders_expire own n _
  | tick clock => exact .outside rfl

end Runs

end Node

end ContractNode
