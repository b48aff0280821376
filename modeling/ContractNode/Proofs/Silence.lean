import ContractNode.Proofs.Forwarded

/-!
# What is on its way to a contract

What is sent to a contract comes after what is on its way to it, and nothing does once the session
has closed its stream, whatever happens to the node.

* `Pipe.Fills` : what is sent into a pipe comes after what is there;
* `Node.Fills`, `fills_move` : so it is with what is on its way to a contract, as long as the
  contract does not read it or give the connection up;
* `suffix_of_move` : once nothing more is sent, it grows less.
-/

namespace ContractNode

/-! ## What is on its way -/

/-- What is sent into a pipe comes after what is there, and nothing does once it is closed. -/
structure Pipe.Fills {α : Type} (p p' : Pipe α) : Prop where
  queue : ∃ l, p'.queue = p.queue ++ l ∧ (p.closed = true → l = [])
  closed : p.closed = true → p'.closed = true

/-- What is sent to the contract of a session comes after what is on its way. -/
abbrev Session.Fills (ses ses' : Session) : Prop := ses.link.outbox.Fills ses'.link.outbox

namespace Pipe.Fills

variable {α : Type} {p p' p'' : Pipe α}

theorem refl (p : Pipe α) : p.Fills p := ⟨⟨[], (List.append_nil _).symm, fun _ => rfl⟩, fun h => h⟩

theorem trans (h : p.Fills p') (h' : p'.Fills p'') : p.Fills p'' := by
  obtain ⟨l, queue, none⟩ := h.queue
  obtain ⟨l', queue', none'⟩ := h'.queue
  refine ⟨⟨l ++ l', by rw [queue', queue, List.append_assoc], fun closed => ?_⟩,
    fun closed => h'.closed (h.closed closed)⟩
  rw [none closed, none' (h.closed closed)]
  rfl

theorem close (p : Pipe α) : p.Fills p.close :=
  ⟨⟨[], (List.append_nil _).symm, fun _ => rfl⟩, fun _ => rfl⟩

end Pipe.Fills

namespace Session

variable {ses ses' : Session}

/-- A session that changes in other things only. -/
theorem Fills.of_outbox (same : ses'.link.outbox = ses.link.outbox) : ses.Fills ses' := by
  unfold Fills
  rw [same]
  exact .refl _

theorem fills_linked {m : Message} {link : Link} (sent : ses.link.send m = .ok link) :
    ses.Fills { ses with link } := by
  rcases ses.link.send_cases m with ⟨e, failed⟩ | ⟨more, same⟩
  · rw [failed] at sent
    cases sent
  · cases Except.ok.inj (same.symm.trans sent)
    refine ⟨⟨[m], rfl, fun closed => ?_⟩, fun closed => closed⟩
    rw [more] at closed
    cases closed

theorem fills_of_send {m : Message} (sent : ses.send m = .ok ses') : ses.Fills ses' := by
  unfold send at sent
  split at sent
  · cases sent
  · rename_i link done
    cases sent
    exact fills_linked done

theorem fills_sendAnyway (ses : Session) (m : Message) : ses.Fills (ses.sendAnyway m) := by
  unfold sendAnyway
  cases sent : ses.send m with
  | error e => exact .refl _
  | ok ses' => exact fills_of_send sent

theorem fills_enqueue (ses : Session) (c : Command) : ses.Fills (ses.enqueue c).2 := by
  unfold enqueue
  split
  · exact .refl _
  · exact .of_outbox rfl

theorem fills_announce (ses : Session) : ses.Fills ses.announce := by
  unfold announce
  split
  · exact .of_outbox rfl
  · exact fills_enqueue ..

theorem fills_reply (ses : Session) (kind : RequestKind) (m : Message) :
    ses.Fills (ses.reply kind m) := by
  unfold reply
  split
  · exact fills_sendAnyway ..
  · exact fills_enqueue ..

theorem fills_notify (ses : Session) (m : Message) : ses.Fills (ses.notify m) := by
  unfold notify
  split
  · exact .refl _
  · exact .of_outbox rfl

end Session

namespace Node

/-- What is sent to the contract of a session comes after what is on its way to it. -/
structure Fills (s : SessionId) (n n' : Node) : Prop where
  session : ∀ ses, n.session? s = some ses → ∃ ses', n'.session? s = some ses' ∧ ses.Fills ses'

variable {P : Act → Prop} {n n' n'' : Node} {s t : SessionId} {ses : Session}

namespace Fills

theorem refl (n : Node) : Fills s n n := ⟨fun ses found => ⟨ses, found, .refl _⟩⟩

theorem trans (h : Fills s n n') (h' : Fills s n' n'') : Fills s n n'' := by
  refine ⟨fun ses found => ?_⟩
  obtain ⟨ses', found', first⟩ := h.session ses found
  obtain ⟨ses'', found'', later⟩ := h'.session ses' found'
  exact ⟨ses'', found'', first.trans later⟩

theorem modify (n : Node) (t : SessionId) {f : Session → Session}
    (h : ∀ ses, n.session? t = some ses → ses.Fills (f ses)) : Fills s n (n.modify t f) := by
  refine ⟨fun ses found => ?_⟩
  rw [session?_modify_if]
  split
  · rename_i same
    subst same
    exact ⟨f ses, by rw [found]; rfl, h ses found⟩
  · exact ⟨ses, found, .refl _⟩

theorem apart (n : Node) (t : SessionId) {f : Session → Session}
    (h : ∀ ses : Session, (f ses).link.outbox = ses.link.outbox) : Fills s n (n.modify t f) :=
  modify n t fun ses _ => .of_outbox (h ses)

theorem elsewhere (n : Node) (other : t ≠ s) (f : Session → Session) : Fills s n (n.modify t f) :=
  ⟨fun ses found => ⟨ses, (session?_modify_if ..).trans ((if_neg other).trans found), .refl _⟩⟩

theorem outside (same : n'.sessions = n.sessions) : Fills s n n' := by
  refine ⟨fun ses found => ⟨ses, ?_, .refl _⟩⟩
  unfold session? at found ⊢
  rwa [same]

end Fills

theorem fills_deregister (n : Node) (t : SessionId) : Fills s n (n.deregister t) := by
  obtain ⟨directory, left⟩ := n.deregister_eq t
  have off : Fills s n (n.modify t fun ses => { ses with isRegistered := false }) :=
    .apart n t fun _ => rfl
  rw [left]
  exact off.trans (.outside rfl)

theorem fills_register (n : Node) (t : SessionId) (m : Message) :
    Fills s n (n.register t m).2 := by
  have listed (id : ContractId) (d : Directory) : Fills s n (n.listed t id d) := by
    have changed : Fills s n { n with directory := d } := .outside rfl
    exact changed.trans (.apart _ t fun _ => rfl)
  have registering := registering_register n t m
  generalize n.register t m = p at registering ⊢
  obtain ⟨outcome, n'⟩ := p
  cases registering with
  | refused e => exact .refl _
  | unsent e free given =>
    rw [given]
    exact (listed ..).trans (fills_deregister ..)
  | told link free sent decoded linked =>
    obtain ⟨ses, found, linked⟩ := linked
    rw [sent, modify_found found]
    refine (listed ..).trans (.modify _ t fun ses' found' => ?_)
    cases Option.some.inj (found.symm.trans found')
    exact Session.fills_linked linked

theorem fills_chore (chore : Chore n n') : Fills s n n' := by
  cases chore with
  | send found sent =>
    refine .modify _ _ fun ses' found' => ?_
    cases Option.some.inj (found.symm.trans found')
    exact Session.fills_linked sent
  | receive | enqueue | dequeue | submit | spawn | pickUp | take | free =>
    exact .apart _ _ fun _ => rfl
  | @register n' t ses m found created registered =>
    have kept : Fills s n (n.register t m).2 := fills_register n t m
    rw [registered] at kept
    have announced : Fills s n' (n'.modify t Session.announce) :=
      .modify _ _ fun ses _ => ses.fills_announce
    exact (kept.trans announced).trans (.apart _ _ fun _ => rfl)
  | @refuse n' t ses m e found created refused =>
    have kept : Fills s n (n.register t m).2 := fills_register n t m
    rw [refused] at kept
    exact kept.trans (.apart _ _ fun _ => rfl)
  | deregister t => exact fills_deregister n t
  | write | tick => exact .outside rfl

theorem fills_closed (n : Node) (t : SessionId) : Fills s n (n.closed t) :=
  (fills_deregister n t).trans (.modify _ _ fun _ _ => .close _)

theorem fills_endSession (n : Node) (t : SessionId) : Fills s n (n.endSession t) := by
  cases found : n.session? t with
  | none =>
    simp only [endSession, found]
    exact .refl n
  | some ses =>
    rw [endSession_eq found]
    split
    · exact fills_closed n t
    · have told : Fills s n (n.farewelled t) := .modify n t fun ses _ => ses.fills_notify _
      exact told.trans (fills_closed ..)

theorem fills_stopOutbound (n : Node) (t : SessionId) : Fills s n (n.stopOutbound t) :=
  (fills_endSession n t).trans (.apart _ _ fun _ => rfl)

theorem fills_answer (n : Node) (t : SessionId) (job : Job) (result : Except SessionError Bytes) :
    Fills s n (n.answer t job result) := by
  rw [answer_eq]
  refine .modify n t fun ses _ => ?_
  have unmarked : ses.Fills { ses with
      transactions := ses.transactions.unmark job.message.channel job.message.tx } := .of_outbox rfl
  exact unmarked.trans (Session.fills_reply ..)

theorem fills_deliver (n : Node) (origin : Origin) (result : Except SessionError Message) :
    Fills s n (n.deliver origin result) := by
  cases origin with
  | caller label => exact .outside rfl
  | request t c m =>
    unfold deliver
    exact fills_answer ..

theorem fills_released (n : Node) (call : Call) (ctx : Context) (f : Context → Context) :
    Fills s n (n.released call ctx f) := by
  have left : Fills s n (n.modify call.session fun ses =>
      { ses with transactions :=
        (ses.transactions.modify call.context f).delete ctx.channel ctx.tx }) :=
    .apart _ _ fun _ => rfl
  exact left.trans (.outside rfl)

theorem fills_began (n : Node) (t : SessionId) (ses : Session) (c : Context) (m : Message)
    (origin : Origin) : Fills s n (n.began t ses c m origin) := by
  have queued : Fills s n (n.modify t fun ses =>
      { ses with
        transactions := ses.transactions.enroll c
        commands := ses.commands ++ [.next { message := m, forward := true }] }) :=
    .apart _ _ fun _ => rfl
  exact queued.trans (.outside rfl)

theorem fills_begun {c : Context} {m : Message} {origin : Origin} {r : Except SessionError Unit}
    (begun : Begun n t c m origin r n') : Fills s n n' := by
  cases begun with
  | missing | duplicate => exact .refl _
  | stopped => exact .apart _ _ fun _ => rfl
  | waits => exact fills_began ..

theorem fills_deed (deed : Deed n n') : Fills s n n' := by
  cases deed with
  | chore done => exact fills_chore done
  | notify t m => exact .modify _ _ fun ses _ => ses.fills_notify m
  | @getReady t ses m found established =>
    have told : Fills s n (n.modify t (·.notify m)) := .modify _ _ fun ses _ => ses.fills_notify m
    exact told.trans (.apart _ _ fun _ => rfl)
  | @stopInbound t =>
    have halted : Fills s n (n.modify t fun ses => { ses with inbound := .stopped }) :=
      .apart _ _ fun _ => rfl
    exact halted.trans (fills_endSession ..)
  | @stopOutbound t => exact fills_stopOutbound n t
  | @shutdown t ses rest =>
    have took : Fills s n (n.modify t fun ses => { ses with commands := rest }) :=
      .apart _ _ fun _ => rfl
    exact took.trans (fills_stopOutbound ..)
  | @openCursor t ses _ _ c ctx scan =>
    have kept : Fills s n (n.modifyCursors t c
        (ctx.cursors.openCursor ses.config.maxBatch (cursorId n.cursorCount) scan).2) :=
      .apart _ _ fun _ => rfl
    exact kept.trans (.outside rfl)
  | advance | closeCursor | bury | park | unpark => exact .apart _ _ fun _ => rfl
  | @call _ t _ _ _ _ m _ _ found free registered known righted resolved begun =>
    have claimed : Fills s n (n.modify t (·.claim m.key)) := .apart _ _ fun _ => rfl
    rcases beginCall_cases begun with ⟨e, failed, _⟩ | ⟨m', c', made, comes⟩
    · cases failed
    · exact claimed.trans (fills_begun comes)
  | finish waits finished =>
    obtain ⟨ctx, m, _, _, rfl⟩ := finish?_cases finished
    exact (fills_released ..).trans (fills_deliver ..)
  | @expire call waits =>
    rcases n.expire_cases call with ⟨_, expired⟩ | ⟨ctx, _, expired⟩
    · rw [expired]
      exact .outside rfl
    · rw [expired]
      exact (fills_released ..).trans (fills_deliver ..)

theorem fills_path (path : Path n n') : Fills s n n' := by
  induction path with
  | refl => exact .refl n
  | tail _ deed ih => exact ih.trans (fills_deed deed)

/-! ## What comes from outside -/

end Node

/-- Whether the contract of a session takes what is on its way to it, or gives the connection up. -/
def Act.takes (s : SessionId) : Act → Bool
  | .contractReads t | .contractDrops t => t == s
  | _ => false

namespace Node

variable {P : Act → Prop} {n n' : Node} {s t : SessionId} {ses : Session}

theorem fills_fromContract (n : Node) (t : SessionId) (arrival : Except StreamError Message) :
    Fills s n (n.fromContract t arrival).2 := by
  unfold fromContract
  cases found : n.session? t with
  | none => exact .refl n
  | some ses =>
    simp only
    cases delivered : ses.link.deliver arrival with
    | error e => exact .refl n
    | ok link =>
      unfold Link.deliver at delivered
      split at delivered
      · cases delivered
      · cases delivered
        refine .modify n t fun ses' found' => ?_
        cases Option.some.inj (found.symm.trans found')
        exact .of_outbox rfl

theorem fills_talker (n : Node) {a : Act} (talker : a.talker? = some t)
    (stays : a.takes s = false) : Fills s n (n.act a) := by
  cases a with
  | contractSends t m => exact fills_fromContract n t (.ok m)
  | breakReceive t e => exact fills_fromContract n t (.error e)
  | contractReads t =>
    have other : t ≠ s := by simpa [Act.takes] using stays
    show Fills s n (n.drain t).2
    unfold drain
    split
    · exact .refl n
    · exact .elsewhere n other _
  | contractCloses t => exact .apart n t fun _ => rfl
  | contractDrops t =>
    have other : t ≠ s := by simpa [Act.takes] using stays
    exact .elsewhere n other _
  | breakSend t broken => exact .apart n t fun _ => rfl
  | trigger t m forward =>
    show Fills s n (n.enqueue t _).2
    unfold enqueue
    split
    · exact .refl n
    · exact .modify n t fun ses _ => ses.fills_enqueue _
  | send t m =>
    show Fills s n (n.send t m).2
    rcases n.send_cases t m with ⟨e, failed⟩ | ⟨ses, link, found, sent, done⟩
    · rw [failed]
      exact .refl n
    · rw [done]
      refine .modify n t fun ses' found' => ?_
      cases Option.some.inj (found.symm.trans found')
      exact Session.fills_linked sent
  | awaitReady t capacity => exact .apart n t fun _ => rfl
  | pollReady t =>
    show Fills s n (n.pollReady t).2
    unfold pollReady
    split
    · exact .apart n t fun _ => rfl
    · exact .refl n
  | dropReady t => exact .apart n t fun _ => rfl
  | _ => cases talker

theorem fills_started {label : String} {kind : MessageKind} {Q : Context → Prop}
    (started : Started n t label kind Q n') : Fills s n n' := by
  cases started with
  | refused e => exact .outside rfl
  | @stopped ses c =>
    have given_up : Fills s n (n.abandoned t c) := .apart n t fun _ => rfl
    exact given_up.trans (.outside rfl)
  | waits m => exact fills_began ..

theorem fills_ready (n : Node) (t : SessionId) (channel tx : String)
    (signedProposal : Option SignedProposal) (proposal : Option Proposal) :
    Fills s n (n.ready t channel tx signedProposal proposal).2 := by
  have readied := readied_ready n t channel tx signedProposal proposal
  generalize n.ready t channel tx signedProposal proposal = r at readied ⊢
  obtain ⟨outcome, n'⟩ := r
  cases readied with
  | refused => exact .refl _
  | stopped | waits => exact .apart n t fun _ => rfl

theorem fills_act (n : Node) {a : Act} (stays : a.takes s = false)
    (once : ∀ span, a ≠ .pass span) : Fills s n (n.act a) := by
  cases talker : a.talker? with
  | some t => exact fills_talker n talker stays
  | none =>
    cases a with
    | pass span => exact absurd rfl (once span)
    | openSession config access launcher =>
      exact ⟨fun ses found =>
        ⟨ses, session?_of_openSession config access launcher found, .refl _⟩⟩
    | start t =>
      show Fills s n (n.start t).2
      rcases n.start_cases t with same | ⟨ses, _, _, started⟩
      · rw [same]
        exact .refl n
      · rw [started]
        exact .apart n t fun _ => rfl
    | handle t m => exact fills_path (path_handle n t m)
    | notify t m => exact .modify n t fun ses _ => ses.fills_notify m
    | deregister t => exact fills_deregister n t
    | ready t channel tx signedProposal proposal => exact fills_ready ..
    | poll t c =>
      show Fills s n (n.poll t c).2
      rcases n.poll_cases t c with ⟨_, polls⟩ | ⟨ctx, _, polls⟩
      · rw [polls]
        exact .refl n
      · rw [polls]
        exact .apart n t fun _ => rfl
    | deleteContext t channel tx => exact .apart n t fun _ => rfl
    | execute t label channel m signedProposal proposal => exact fills_started (started_execute ..)
    | run t label i => exact fills_started (started_run ..)
    | registerKey key t =>
      obtain ⟨directory, given⟩ := n.registerKey_eq key t
      show Fills s n (n.registerKey key t).2
      rw [given]
      exact .outside rfl
    | seed channel tx space collection entries =>
      obtain ⟨ledger, given⟩ := n.seed_eq channel tx space collection entries
      show Fills s n (n.seed channel tx space collection entries).2
      rw [given]
      exact .outside rfl
    | deregisterKey | createChannel | gate | ungate => exact .outside rfl
    | _ => cases talker

/-- Whatever happens, what is on its way to a contract stays so until the contract takes it. -/
theorem fills_move (stays : ∀ a, P a → a.takes s = false) (move : Move P n n') : Fills s n n' := by
  rcases act_or_path move with ⟨a, given, once, rfl⟩ | path
  · exact fills_act n (stays a given) once
  · exact fills_path path

/-! ## Once nothing more is sent -/

theorem suffix_of_fills (fills : Fills s n n') (found : n.session? s = some ses)
    (closed : ses.link.outbox.closed = true) : ∃ ses', n'.session? s = some ses' ∧
      ses'.link.outbox.closed = true ∧ ses'.link.outbox.queue <:+ ses.link.outbox.queue := by
  obtain ⟨ses', found', more⟩ := fills.session ses found
  obtain ⟨l, queue, nothing⟩ := more.queue
  rw [nothing closed, List.append_nil] at queue
  exact ⟨ses', found', more.closed closed, queue ▸ List.suffix_rfl⟩

/-- What is on its way once nothing more is sent grows less, if anything. -/
theorem suffix_of_move (move : Move P n n') (found : n.session? s = some ses)
    (closed : ses.link.outbox.closed = true) : ∃ ses', n'.session? s = some ses' ∧
      ses'.link.outbox.closed = true ∧ ses'.link.outbox.queue <:+ ses.link.outbox.queue := by
  rcases act_or_path move with ⟨a, _, once, rfl⟩ | path
  · cases takes : a.takes s with
    | false => exact suffix_of_fills (fills_act n takes once) found closed
    | true =>
      cases a with
      | contractReads t =>
        cases beq_iff_eq.1 takes
        refine ⟨{ ses with link := ses.link.drain.2 }, ?_, closed, List.nil_suffix⟩
        show (n.drain s).2.session? s = _
        unfold drain
        rw [found]
        exact session?_modify found
      | contractDrops t =>
        cases beq_iff_eq.1 takes
        exact ⟨_, session?_modify found, closed, List.nil_suffix⟩
      | _ => cases takes
  · exact suffix_of_fills (fills_path path) found closed

end Node

end ContractNode
