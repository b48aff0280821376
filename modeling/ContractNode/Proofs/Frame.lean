import ContractNode.Proofs.Moves

/-!
# Frames

Most of what a node does leaves the contexts of its sessions alone, but for new ones without cursors,
and ends no session. A relation that holds between nodes which differ like that holds between a node
and what most operations make of it.

* `Session.Aside` : a session changes in what is neither its contexts nor their index;
* `Context.Unheard` : a context without cursors that nobody was told anything in;
* `Node.Frame` : such a relation, with one lemma an operation (`Frame.register`, `Frame.started`);
* `Node.Turning`, `Frame.serve` : requests do nothing else but to the cursors of their contexts;
* `Node.Handing`, `Node.Telling` : a frame that holds as well where a session tells whoever waits
  something (`Handing.handle`), and where a message is taken out of a slot (`Telling.move`).
-/

namespace ContractNode

/-- A session in a phase that is shown a message hands it to whoever waits for the transaction. -/
def Phase.hands (p : Phase) (m : Message) : Bool :=
  Node.bypasses p m.kind || (p == .established && Event.ofKind? m.kind == some .ready)

/-- A session keeps its contexts and what is registered, does not end, and does not fall back behind
its handshake. -/
structure Session.Aside (ses ses' : Session) : Prop where
  contexts : ses'.transactions.contexts = ses.transactions.contexts
  index : ses'.transactions.index = ses.transactions.index
  phase : ses'.phase = .ended → ses.phase = .ended
  running : ses.isRunning = true → ses'.isRunning = true

namespace Session

theorem Aside.of_eq {ses ses' : Session} (transactions : ses'.transactions = ses.transactions)
    (phase : ses'.phase = ses.phase) : ses.Aside ses' :=
  ⟨by rw [transactions], by rw [transactions], fun ended => phase ▸ ended,
    fun running => by rwa [isRunning, phase]⟩

theorem Aside.trans {ses ses' ses'' : Session} (h : ses.Aside ses') (h' : ses'.Aside ses'') :
    ses.Aside ses'' :=
  ⟨h'.contexts.trans h.contexts, h'.index.trans h.index, fun ended => h.phase (h'.phase ended),
    fun running => h'.running (h.running running)⟩

theorem Talks.aside {ses ses' : Session} (h : ses.Talks ses') : ses.Aside ses' := by
  cases h with
  | intro => exact .of_eq rfl rfl

theorem aside_reply (ses : Session) (kind : RequestKind) (m : Message) :
    ses.Aside (ses.reply kind m) := (ses.talks_reply kind m).aside

theorem aside_submit {ses ses' : Session} {job : Job} (submitted : ses.submit job = .ok ses') :
    ses.Aside ses' := by
  unfold submit at submitted
  split at submitted
  · cases submitted
    exact .of_eq rfl rfl
  · cases submitted

end Session

/-- A context has no cursors, and there is no message for whoever waits. -/
structure Context.Unheard (c : Context) : Prop where
  cursors : c.cursors = {}
  message : c.slot.message = none

theorem Context.Blank.unheard {c : Context} (blank : c.Blank) : c.Unheard :=
  ⟨blank.cursors, by rw [blank.slot]⟩

/-- Nothing is there for whoever takes the slot, if there was nothing before. -/
theorem Slot.message_take (s : Slot) : s.take.2.message = s.message := by
  rw [take]
  split <;> rfl

theorem Context.Unheard.handed {c : Context} (unheard : c.Unheard) :
    Context.Unheard { c with slot := c.slot.take.2 } :=
  ⟨unheard.cursors, (Slot.message_take _).trans unheard.message⟩

/-- A context that never had cursors has none after it was given up. -/
theorem Context.Unheard.given_up {c : Context} (unheard : c.Unheard) :
    Context.Unheard { c.closeCursors with slot := c.slot.drop } := by
  refine ⟨?_, rfl⟩
  show c.cursors.closeAll = {}
  rw [unheard.cursors]
  rfl

namespace Node

/-- A relation between nodes that holds where contexts stay as they are and registered as they are,
where new ones come without cursors or messages, where sessions do not end, where executions go on to
wait, and where nobody from outside gets an answer. -/
structure Frame (R : Node → Node → Prop) : Prop where
  refl (n : Node) : R n n
  trans {n n' n'' : Node} (h : R n n') (h' : R n' n'') : R n n''
  /-- Something changes that is no session. -/
  outside {n n' : Node} (sessions : n'.sessions = n.sessions)
    (calls : ∀ call ∈ n.calls, call ∈ n'.calls) (count : n.cursorCount ≤ n'.cursorCount)
    (results : ∀ label m, (label, .ok m) ∈ n'.results → (label, .ok m) ∈ n.results) : R n n'
  aside {n : Node} {t : SessionId} {f : Session → Session}
    (h : ∀ ses, n.session? t = some ses → ses.Aside (f ses)) : R n (n.modify t f)
  append {n : Node} {ses : Session} (blank : ses.transactions = {}) :
    R n { n with sessions := n.sessions ++ [ses] }
  bury {n : Node} {t : SessionId} {c : Context} (unheard : c.Unheard) :
    R n (n.modify t fun ses => { ses with transactions := ses.transactions.bury c })
  enroll {n : Node} {t : SessionId} {ses : Session} {c : Context}
    (found : n.session? t = some ses) (fresh : ses.transactions.index.get? c.key = none)
    (unheard : c.Unheard) :
    R n (n.modify t fun ses => { ses with transactions := ses.transactions.enroll c })

def Registers (n : Node) (s : SessionId) (c : Nat) : Prop :=
  ∃ ses k, n.session? s = some ses ∧ ses.transactions.index.get? k = some c

/-- A request lands in a context: the marker of its transaction is free, and the context is that of
the transaction. -/
structure Lands (n : Node) (s : SessionId) (c : Nat) (job : Job) (r : Request) : Prop where
  read : Request.decode job.kind job.message.payload = .ok r
  about : ∃ ses, n.session? s = some ses ∧ job.message.key ∉ ses.transactions.markers ∧
    ses.transactions.find? job.message.channel job.message.tx = some c

/-- A worker takes up a request, which lands in a context. -/
structure Takes (s : SessionId) (c : Nat) (job : Job) (r : Request) (n n' : Node) : Prop where
  took : n.work? s = some n'
  lands : n.Lands s c job r
  first : ∃ ses pool, n.session? s = some ses ∧ ses.pool.take = some (.job job, pool)

/-- What a request does to the cursors of its context. -/
inductive Turning (n : Node) (t : SessionId) (c : Nat) (ctx : Context) : Request → Node → Prop
  | opens {r : Request} (max : Nat) (scan : Scan) (other : r.kind ≠ .invoke) : Turning n t c ctx r
      { n.modifyCursors t c (ctx.cursors.openCursor max (cursorId n.cursorCount) scan).2 with
        cursorCount := n.cursorCount + 1 }
  | advances (max : Nat) (q : CursorRef) : Turning n t c ctx (.next q)
      (n.modifyCursors t c (ctx.cursors.advance max q.id).2)
  | closes (q : CursorRef) : Turning n t c ctx (.close q)
      (n.modifyCursors t c (ctx.cursors.close q.id))

namespace Frame

variable {R : Node → Node → Prop} (frame : Frame R) {n n' : Node} {t : SessionId}

include frame

/-! ## Messages and registration -/

theorem apart (n : Node) (t : SessionId) {f : Session → Session}
    (h : ∀ ses : Session, ses.Aside (f ses)) : R n (n.modify t f) := frame.aside fun ses _ => h ses

theorem talks (talks : n.Talks t n') : R n n' := by
  cases talks with
  | intro talks => exact frame.aside fun ses found => (talks ses found).aside

theorem setPhase {phase : Phase} (live : phase ≠ .ended)
    (on : ∀ ses, n.session? t = some ses → ses.isRunning = true → phase = .ready) :
    R n (n.setPhase t phase) := by
  refine frame.aside fun ses found => ⟨rfl, rfl, fun ended => absurd ended live, fun running => ?_⟩
  rw [on ses found running]
  rfl

theorem deregister (n : Node) (t : SessionId) : R n (n.deregister t) := by
  obtain ⟨directory, left⟩ := n.deregister_eq t
  have off : R n (n.modify t fun ses => { ses with isRegistered := false }) :=
    frame.apart n t fun _ => .of_eq rfl rfl
  rw [left]
  exact frame.trans off (frame.outside rfl (fun _ waits => waits) (Nat.le_refl _) fun _ _ told => told)

theorem listed (n : Node) (t : SessionId) (id : ContractId) (d : Directory) :
    R n (n.listed t id d) := by
  have outside : R n { n with directory := d } :=
    frame.outside rfl (fun _ waits => waits) (Nat.le_refl _) fun _ _ told => told
  exact frame.trans outside (frame.apart _ t fun _ => .of_eq rfl rfl)

theorem register (n : Node) (t : SessionId) (m : Message) : R n (n.register t m).2 := by
  have registering := registering_register n t m
  generalize n.register t m = p at registering ⊢
  obtain ⟨outcome, n'⟩ := p
  cases registering with
  | refused e => exact frame.refl _
  | unsent e free given =>
    rw [given]
    exact frame.trans (frame.listed ..) (frame.deregister ..)
  | told link free sent =>
    rw [sent]
    exact frame.trans (frame.listed ..) (frame.apart _ t fun _ => .of_eq rfl rfl)

/-! ## The end of a session -/

theorem closed (ended : ∀ ses, n.session? t = some ses → ses.phase = .ended) :
    R n (n.closed t) := by
  refine frame.trans (frame.deregister n t)
    (frame.aside fun ses found => ⟨rfl, rfl, fun _ => ?_, fun _ => rfl⟩)
  cases found' : n.session? t with
  | none =>
    obtain ⟨directory, left⟩ := n.deregister_eq t
    rw [left] at found
    change (n.modify t _).session? t = some ses at found
    rw [session?_modify_if, found'] at found
    simp at found
  | some ses' =>
    rw [session?_deregister found'] at found
    cases found
    exact ended ses' found'

theorem endSession (ends : ∀ ses, n.session? t = some ses → ses.phase ≠ .ended →
    R n ((n.farewelled t).closed t)) : R n (n.endSession t) := by
  cases found : n.session? t with
  | none =>
    simp only [Node.endSession, found]
    exact frame.refl n
  | some ses =>
    rw [endSession_eq found]
    split
    · rename_i ended
      refine frame.closed fun ses' found' => ?_
      cases Option.some.inj (found.symm.trans found')
      exact ended
    · rename_i live
      exact ends ses found live

/-! ## Executions -/

theorem answer (n : Node) (t : SessionId) (job : Job) (result : Except SessionError Bytes) :
    R n (n.answer t job result) := by
  rw [answer_eq]
  refine frame.apart n t fun ses => ?_
  refine .trans ?_ (Session.aside_reply ..)
  exact ⟨rfl, rfl, id, id⟩

theorem failed (n : Node) (label : String) (e : SessionError) :
    R n { n with results := n.results ++ [(label, .error e)] } := by
  refine frame.outside rfl (fun _ waits => waits) (Nat.le_refl _) fun label m told => ?_
  simpa using told

/-- A request is answered when the execution that it waits for ends. -/
theorem deliver {origin : Origin} {result : Except SessionError Message}
    (heard : ∀ label, origin = .caller label →
      R n { n with results := n.results ++ [(label, result)] }) : R n (n.deliver origin result) := by
  cases origin with
  | caller label => exact heard label rfl
  | request t c m => exact frame.answer n t ⟨.invoke, m⟩ _

theorem deliver_error (n : Node) (origin : Origin) (e : SessionError) :
    R n (n.deliver origin (.error e)) :=
  frame.deliver fun label _ => frame.failed n label e

theorem abandoned (n : Node) (t : SessionId) {c : Context} (unheard : c.Unheard) :
    R n (n.abandoned t c) := frame.bury unheard.given_up

theorem enrolled {ses : Session} {c : Context} (found : n.session? t = some ses)
    (fresh : ses.transactions.index.get? c.key = none) (unheard : c.Unheard)
    (command : Instruction) :
    R n (n.modify t fun ses =>
      { ses with
        transactions := ses.transactions.enroll c, commands := ses.commands ++ [command] }) := by
  have queued : R (n.modify t fun ses => { ses with transactions := ses.transactions.enroll c })
      ((n.modify t fun ses => { ses with transactions := ses.transactions.enroll c }).modify t
        fun ses => { ses with commands := ses.commands ++ [command] }) :=
    frame.apart _ t fun _ => .of_eq rfl rfl
  rw [modify_modify] at queued
  exact frame.trans (frame.enroll found fresh unheard) queued

theorem began {ses : Session} {c : Context} (found : n.session? t = some ses)
    (fresh : ses.transactions.index.get? c.key = none) (unheard : c.Unheard) (m : Message)
    (origin : Origin) : R n (n.began t ses c m origin) :=
  frame.trans (frame.enrolled found fresh unheard (.next { message := m, forward := true }))
    (frame.outside rfl (fun _ waits => List.mem_append_left _ waits) (Nat.le_refl _)
      fun _ _ told => told)

theorem begun {c : Context} {m : Message} {origin : Origin} {r : Except SessionError Unit}
    (begun : Begun n t c m origin r n') (unheard : c.Unheard) : R n n' := by
  cases begun with
  | missing | duplicate => exact frame.refl _
  | stopped => exact frame.abandoned _ t unheard
  | waits found fresh => exact frame.began found fresh unheard m origin

theorem started {label : String} {kind : MessageKind} {Q : Context → Prop}
    (started : Started n t label kind Q n') (unheard : ∀ c, Q c → c.Unheard) : R n n' := by
  cases started with
  | refused e => exact frame.failed n label e
  | stopped e _ _ _ given =>
    exact frame.trans (frame.abandoned n t (unheard _ given)) (frame.failed _ label e)
  | waits m found fresh _ given => exact frame.began found fresh (unheard _ given) m _

theorem ready (n : Node) (t : SessionId) (channel tx : String)
    (signedProposal : Option SignedProposal) (proposal : Option Proposal) :
    R n (n.ready t channel tx signedProposal proposal).2 := by
  have unheard := (blank_newContext n channel tx signedProposal proposal).unheard
  have readied := readied_ready n t channel tx signedProposal proposal
  generalize n.ready t channel tx signedProposal proposal = p at readied ⊢
  obtain ⟨outcome, n'⟩ := p
  cases readied with
  | refused => exact frame.refl _
  | stopped => exact frame.bury unheard.handed
  | waits m found fresh => exact frame.enrolled found fresh unheard _

/-! ## Requests -/

section Requests

variable {ses : Session} {job : Job} {c : Nat} {ctx : Context} {r : Request}

theorem withRight {f : Simulator → String → Outcome × Node} (h : ∀ sim space, R n (f sim space).2) :
    R n (n.withRight ses ctx f).2 := by
  unfold Node.withRight
  split
  · exact frame.refl n
  · split
    · exact frame.refl n
    · exact h ..

theorem withHistory {f : Historian → String → Outcome × Node}
    (h : ∀ right space, R n (f right space).2) : R n (n.withHistory ses ctx f).2 := by
  unfold Node.withHistory
  split
  · exact frame.refl n
  · split
    · exact frame.refl n
    · exact h ..

theorem commit (r : Except LedgerError Ledger) : R n (n.commit r).2 := by
  cases r with
  | error e => exact frame.refl n
  | ok ledger => exact frame.outside rfl (fun _ waits => waits) (Nat.le_refl _) fun _ _ told => told

theorem openCursor (turns : ∀ n', Turning n t c ctx r n' → R n n') (other : r.kind ≠ .invoke)
    (max : Nat) (scan : Except LedgerError Scan) : R n (n.openCursor t c max ctx scan).2 := by
  cases scan with
  | error e => exact frame.refl n
  | ok scan => exact turns _ (.opens max scan other)

theorem invoke (m : Message) (spec : CallSpec) : R n (n.invoke t ses c ctx m spec).2 := by
  simp only [Node.invoke, callSession]
  repeat' split
  any_goals exact frame.refl n
  all_goals
    rename_i begun
    rcases beginCall_cases begun with ⟨_, _, rfl⟩ | ⟨_, _, made, comes⟩
    · exact frame.refl _
    · exact frame.begun comes (blank_of_called made).unheard

theorem perform (turns : ∀ n', Turning n t c ctx r n' → R n n') :
    R n (n.perform t ses c ctx job r).2 := by
  cases r with
  | get r =>
    refine frame.withRight fun sim space => ?_
    split
    · exact frame.refl n
    · exact frame.refl n
  | put w => exact frame.withRight fun _ _ => frame.commit _
  | delete r => exact frame.withRight fun _ _ => frame.commit _
  | range r => exact frame.withRight fun _ _ => frame.openCursor turns nofun ..
  | query q => exact frame.withRight fun _ _ => frame.openCursor turns nofun ..
  | history r => exact frame.withHistory fun _ _ => frame.openCursor turns nofun ..
  | next q => exact turns _ (.advances _ q)
  | close q => exact turns _ (.closes q)
  | invoke spec => exact frame.invoke ..

theorem attempt (turns : ∀ c ctx r n', Request.decode job.kind job.message.payload = .ok r →
      ses.transactions.find? job.message.channel job.message.tx = some c →
      ses.transactions.context? c = some ctx → Turning n t c ctx r n' → R n n') :
    R n (n.attempt t ses job).2 := by
  unfold Node.attempt
  cases read : Request.decode job.kind job.message.payload with
  | error e => exact frame.refl n
  | ok r =>
    simp only
    cases registered : ses.transactions.find? job.message.channel job.message.tx with
    | none => exact frame.refl n
    | some c =>
      simp only
      cases known : ses.transactions.context? c with
      | none => exact frame.refl n
      | some ctx => exact frame.perform fun n' turning => turns c ctx r n' read registered known turning

/-- Serving a request does nothing but to the cursors of the context that it lands in. -/
theorem serve (n : Node) (t : SessionId) (job : Job)
    (turns : ∀ c ctx r n', n.Lands t c job r → n.context? t c = some ctx →
      Turning (n.modify t (·.claim job.message.key)) t c ctx r n' →
        R (n.modify t (·.claim job.message.key)) n') : R n (n.serve t job).2 := by
  cases found : n.session? t with
  | none =>
    simp only [Node.serve, found]
    exact frame.refl n
  | some ses =>
    by_cases held : job.message.key ∈ ses.transactions.markers
    · rw [serve_held found held]
      exact frame.refl n
    · have claimed : R n (n.modify t (·.claim job.message.key)) :=
        frame.apart n t fun _ => ⟨rfl, rfl, id, id⟩
      have tried : R (n.modify t (·.claim job.message.key))
          ((n.modify t (·.claim job.message.key)).attempt t (ses.claim job.message.key) job).2 := by
        refine frame.attempt fun c ctx r n' read registered known turning => ?_
        exact turns c ctx r n' ⟨read, ses, found, held, registered⟩
          (context?_eq_some_iff.2 ⟨ses, found, known⟩) turning
      rw [serve_free found held]
      generalize (n.modify t (·.claim job.message.key)).attempt t (ses.claim job.message.key) job =
        p at tried
      obtain ⟨outcome, n'⟩ := p
      cases outcome with
      | answered result => exact frame.trans (frame.trans claimed tried) (frame.answer ..)
      | parked | calling => exact frame.trans claimed tried

end Requests

/-! ## Messages that are shown -/

theorem submit (n : Node) (t : SessionId) (job : Job) : R n (n.submit t job).2 := by
  unfold Node.submit
  split
  · exact frame.refl n
  · rename_i ses found
    cases submitted : ses.submit job with
    | error e => exact frame.refl n
    | ok ses' =>
      refine frame.aside fun ses₁ found₁ => ?_
      cases Option.some.inj (found.symm.trans found₁)
      exact Session.aside_submit submitted

theorem handle {m : Message} (told : ∀ ses, n.session? t = some ses → ses.phase.hands m = true →
    R n (n.modify t (·.notify m))) : R n (n.handle t m) := by
  have handled := handled_handle n t m
  generalize n.handle t m = n' at handled
  cases handled with
  | missing | ignored => exact frame.refl n
  | passes found passes => exact told _ found (by simp [Phase.hands, passes])
  | @registers ses n' found created registered raised =>
    have kept : R n (n.register t m).2 := frame.register n t m
    rw [registered] at kept
    have announced : R n' (n'.modify t Session.announce) :=
      frame.apart n' t fun ses => ses.talks_announce.aside
    have phase := phase_register (m := m) found
    rw [registered] at phase
    refine frame.trans (frame.trans kept announced) (frame.setPhase nofun fun ses' found' => ?_)
    obtain ⟨ses₁, found₁, created'⟩ := phase
    rw [session?_modify found₁] at found'
    cases found'
    simp [Session.isRunning, (Session.talks_announce ses₁).phase, created', created]
  | @refused ses n' e found created refused raised =>
    have kept : R n (n.register t m).2 := frame.register n t m
    rw [refused] at kept
    have phase := phase_register (m := m) found
    rw [refused] at phase
    refine frame.trans kept (frame.setPhase nofun fun ses' found' => ?_)
    obtain ⟨ses₁, found₁, created'⟩ := phase
    cases Option.some.inj (found₁.symm.trans found')
    simp [Session.isRunning, created', created]
  | readies found established raised =>
    refine frame.trans (told _ found ?_) (frame.setPhase nofun fun _ _ _ => rfl)
    simp [Phase.hands, established, raised]
  | calls => exact frame.apart n t fun _ => .of_eq rfl rfl
  | submits => exact frame.submit ..

/-! ## Turns of workers and threads -/

/-- A call request does nothing to the cursors of its context. -/
theorem dial (n : Node) (t : SessionId) (m : Message) : R n (n.dial t m) := by
  have started : R n (n.modify t (·.pickUp m)) :=
    frame.apart n t fun _ => .of_eq rfl rfl
  refine frame.trans started (frame.serve _ t _ fun c ctx r n' lands _ turning => ?_)
  have kind := Request.kind_of_decode lands.read
  cases turning with
  | opens _ _ other => exact absurd kind other
  | advances | closes => cases kind

/-- A worker does nothing but to the cursors of the context that the request it takes up lands in. -/
theorem work? (took : n.work? t = some n')
    (turns : ∀ job c ctx r n₁ n₂, Takes t c job r n n' → n.context? t c = some ctx →
      n₁.context? t c = some ctx → Turning n₁ t c ctx r n₂ → R n₁ n₂) : R n n' := by
  have turn := took
  unfold Node.work? at took
  split at took
  · cases took
  · rename_i ses found
    split at took
    · cases took
    · cases took
      exact frame.apart n t fun _ => .of_eq rfl rfl
    · rename_i job pool taken
      have taking : R n (n.modify t fun ses => { ses with pool }) :=
        frame.apart n t fun _ => .of_eq rfl rfl
      have found₁ := session?_modify (f := fun ses => { ses with pool }) found
      have served : R (n.modify t fun ses => { ses with pool })
          ((n.modify t fun ses => { ses with pool }).serve t job).2 := by
        refine frame.serve _ t job ?_
        rintro c ctx r n₂ ⟨read, ses', found', free, registered⟩ known turning
        cases Option.some.inj (found₁.symm.trans found')
        obtain ⟨ses', found', known⟩ := context?_eq_some_iff.1 known
        cases Option.some.inj (found₁.symm.trans found')
        exact turns job c ctx r _ n₂
          ⟨turn, ⟨read, ses, found, free, registered⟩, ses, pool, found, taken⟩
          (context?_eq_some_iff.2 ⟨ses, found, known⟩)
          (context?_eq_some_iff.2 ⟨_, session?_modify found₁, known⟩) turning
      have done := frame.trans taking served
      generalize (n.modify t fun ses => { ses with pool }).serve t job = p at took done
      obtain ⟨parked, n₁⟩ := p
      cases parked with
      | none | some p =>
        cases took
        exact frame.trans done (frame.apart n₁ t fun _ => .of_eq rfl rfl)

theorem resume? (took : n.resume? t = some n') : R n n' := by
  unfold Node.resume? at took
  split at took
  · cases took
  · obtain ⟨p, _, rfl⟩ := Option.map_eq_some_iff.1 took
    have freed : R n (n.modify t fun ses =>
        { ses with parked := ses.parked.erase p, pool := ses.pool.finish p.job }) :=
      frame.apart n t fun _ => .of_eq rfl rfl
    exact frame.trans freed (frame.answer ..)

end Frame

end Node

/-- Whether an act leaves the contexts that are there alone, and ends no session. -/
def Act.isAside : Act → Bool
  | .handle .. | .notify .. | .poll .. | .deleteContext .. | .pass _ => false
  | _ => true

namespace Node

variable {R : Node → Node → Prop} {n n' : Node} {t : SessionId}

theorem Frame.act (frame : Frame R) (n : Node) {a : Act} (aside : a.isAside = true) :
    R n (n.act a) := by
  cases talker : a.talker? with
  | some t => exact frame.talks (n.talks_act talker)
  | none =>
    cases a with
    | openSession config access launcher => exact frame.append rfl
    | start t =>
      show R n (n.start t).2
      rcases n.start_cases t with same | ⟨ses, _, _, started⟩
      · rw [same]
        exact frame.refl n
      · rw [started]
        exact frame.apart n t fun _ => .of_eq rfl rfl
    | deregister t => exact frame.deregister n t
    | ready t channel tx signedProposal proposal =>
      exact frame.ready n t channel tx signedProposal proposal
    | execute t label channel m signedProposal proposal =>
      refine frame.started (started_execute n t label channel m signedProposal proposal) ?_
      rintro c ⟨tx, rfl⟩
      exact (blank_newContext ..).unheard
    | run t label i =>
      refine frame.started (started_run n t label i) ?_
      rintro c ⟨m, made⟩
      exact (blank_of_called made).unheard
    | registerKey key t =>
      obtain ⟨directory, given⟩ := n.registerKey_eq key t
      show R n (n.registerKey key t).2
      rw [given]
      exact frame.outside rfl (fun _ waits => waits) (Nat.le_refl _) fun _ _ told => told
    | seed channel tx space collection entries =>
      obtain ⟨ledger, given⟩ := n.seed_eq channel tx space collection entries
      show R n (n.seed channel tx space collection entries).2
      rw [given]
      exact frame.outside rfl (fun _ waits => waits) (Nat.le_refl _) fun _ _ told => told
    | deregisterKey | createChannel | gate | ungate =>
      exact frame.outside rfl (fun _ waits => waits) (Nat.le_refl _) fun _ _ told => told
    | handle | notify | poll | deleteContext | pass => cases aside
    | _ => cases talker

/-! ## Telling -/

/-- A frame that holds as well where a session tells whoever waits for a transaction something, since
it is shown a message or ends. -/
structure Handing (R : Node → Node → Prop) : Prop extends Frame R where
  notify {n : Node} {t : SessionId} {ses : Session} {m : Message} (found : n.session? t = some ses)
    (hands : ses.phase.hands m = true) : R n (n.modify t (·.notify m))
  farewell (n : Node) (t : SessionId) : R n ((n.farewelled t).closed t)

/-- A frame that holds as well where somebody is told something, and where a message is taken out of
a slot. -/
structure Telling (R : Node → Node → Prop) : Prop extends Handing R where
  polled (n : Node) (t : SessionId) (c : Nat) : R n (n.polled t c)

namespace Handing

variable (handing : Handing R)

include handing

theorem handle (n : Node) (t : SessionId) (m : Message) : R n (n.handle t m) :=
  handing.toFrame.handle fun _ => handing.notify

theorem endSession (n : Node) (t : SessionId) : R n (n.endSession t) :=
  handing.toFrame.endSession fun _ _ _ => handing.farewell n t

theorem stopInbound (n : Node) (t : SessionId) : R n (n.stopInbound t) := by
  have halted : R n (n.modify t fun ses => { ses with inbound := .stopped }) :=
    handing.apart n t fun _ => .of_eq rfl rfl
  exact handing.trans halted (handing.endSession _ t)

theorem stopOutbound (n : Node) (t : SessionId) : R n (n.stopOutbound t) :=
  handing.trans (handing.endSession n t) (handing.apart _ t fun _ => .of_eq rfl rfl)

/-- What follows after a message that has arrived was shown. -/
theorem arrived (n : Node) (t : SessionId) {m : Message} (spoken : m.kind ≠ .keepalive) :
    R (n.handle t m) (n.arrive t m) := by
  unfold Node.arrive
  rw [if_neg spoken]
  simp only
  split
  · exact handing.stopInbound _ t
  · exact handing.refl _

theorem arrive (n : Node) (t : SessionId) (m : Message) : R n (n.arrive t m) := by
  by_cases keepalive : m.kind = .keepalive
  · unfold Node.arrive
    rw [if_pos keepalive]
    exact handing.refl n
  · exact handing.trans (handing.handle n t m) (handing.arrived n t keepalive)

theorem receive? (took : n.receive? t = some n') : R n n' := by
  have taking (inbox : Pipe (Except StreamError Message)) : R n (n.modify t (·.withInbox inbox)) :=
    handing.apart n t fun _ => .of_eq rfl rfl
  unfold Node.receive? at took
  split at took
  · cases took
  · split at took
    · split at took
      · cases took
      · cases took
        exact handing.stopInbound n t
      · cases took
        exact handing.trans (taking _) (handing.stopInbound _ t)
      · cases took
        exact handing.trans (taking _) (handing.arrive _ t _)
    · cases took

/-- What follows after a message that was queued was shown. -/
theorem carriedOut (n : Node) (t : SessionId) (c : Command) :
    R (n.handle t c.message) (n.carryOut t c) := by
  unfold Node.carryOut
  simp only
  split
  · split
    · rcases sendNow_cases (n.handle t c.message) t c.message with sent | ⟨_, _, _, _, sent⟩
      · rw [sent]
        exact handing.stopOutbound _ t
      · rw [sent]
        exact handing.apart _ t fun _ => .of_eq rfl rfl
    · exact handing.apart _ t fun ses => (ses.talks_sendAnyway _).aside
  · exact handing.refl _

theorem carryOut (n : Node) (t : SessionId) (c : Command) : R n (n.carryOut t c) :=
  handing.trans (handing.handle n t c.message) (handing.carriedOut n t c)

theorem command? (took : n.command? t = some n') : R n n' := by
  have taking (commands : List Instruction) : R n (n.modify t fun ses => { ses with commands }) :=
    handing.apart n t fun _ => .of_eq rfl rfl
  unfold Node.command? at took
  split at took
  · cases took
  · split at took
    · split at took
      · cases took
      · cases took
        exact handing.trans (taking _) (handing.stopOutbound _ t)
      · cases took
        exact handing.trans (taking _) (handing.carryOut _ t _)
    · cases took

/-- A session is shown a message, after it was taken from where it waited. -/
theorem shows {m : Message} (shows : Shows t m n n') (spoken : m.kind ≠ .keepalive) :
    ∃ f : Session → Session, (∀ ses, (f ses).transactions = ses.transactions) ∧
      (∀ ses, (f ses).phase = ses.phase) ∧ R ((n.modify t f).handle t m) n' := by
  cases shows with
  | handed =>
    refine ⟨fun ses => ses, fun _ => rfl, fun _ => rfl, ?_⟩
    rw [modify_self fun _ _ => rfl]
    exact handing.refl _
  | @received _ ses inbox found running taken took =>
    refine ⟨(·.withInbox inbox), fun _ => rfl, fun _ => rfl, ?_⟩
    simp only [Node.receive?, found, running, if_true, taken] at took
    cases took
    exact handing.arrived _ t spoken
  | @triggered _ ses c rest found running queued message took =>
    refine ⟨fun ses => { ses with commands := rest }, fun _ => rfl, fun _ => rfl, ?_⟩
    simp only [Node.command?, found, running, if_true, queued] at took
    cases took
    rw [← message]
    exact handing.carriedOut _ t c

theorem act (n : Node) {a : Act} (once : ∀ span, a ≠ .pass span) :
    R n (n.act a) ∨ (∃ t m, a = .notify t m) ∨ (∃ t channel tx, a = .deleteContext t channel tx) ∨
      ∃ t c, n.act a = n.polled t c := by
  cases aside : a.isAside with
  | true => exact .inl (handing.toFrame.act n aside)
  | false =>
    cases a with
    | handle t m => exact .inl (handing.handle n t m)
    | notify t m => exact .inr (.inl ⟨t, m, rfl⟩)
    | poll t c =>
      show R n (n.poll t c).2 ∨ _ ∨ _ ∨ ∃ t' c', (n.poll t c).2 = n.polled t' c'
      rcases n.poll_cases t c with ⟨_, polls⟩ | ⟨ctx, _, polls⟩
      · rw [polls]
        exact .inl (handing.refl n)
      · rw [polls]
        exact .inr (.inr (.inr ⟨t, c, rfl⟩))
    | deleteContext t channel tx => exact .inr (.inr (.inl ⟨t, channel, tx, rfl⟩))
    | pass span => exact absurd rfl (once span)
    | _ => cases aside

/-- The moves at which more may happen than such a frame allows: somebody from outside tells whoever
waits something, a worker takes a turn, a context is deleted, an execution waits no longer, or a
message is taken out of a slot. -/
theorem move {P : Act → Prop} (move : Move P n n') :
    R n n' ∨ (∃ t m, P (.notify t m) ∧ n' = n.modify t (·.notify m)) ∨
      (∃ t, n.work? t = some n') ∨
        (∃ t channel tx, n' = n.act (.deleteContext t channel tx)) ∨
          (∃ call ∈ n.calls, n.finish? call = some n' ∨ n' = n.expire call) ∨
            ∃ t c, n' = n.polled t c := by
  cases move with
  | act a given once =>
    rcases handing.act n once with kept | ⟨t, m, rfl⟩ | ⟨t, channel, tx, rfl⟩ | ⟨t, c, polls⟩
    · exact .inl kept
    · exact .inr (.inl ⟨t, m, given, rfl⟩)
    · exact .inr (.inr (.inr (.inl ⟨t, channel, tx, rfl⟩)))
    · exact .inr (.inr (.inr (.inr (.inr ⟨t, c, polls⟩))))
  | finish waits finished => exact .inr (.inr (.inr (.inr (.inl ⟨_, waits, .inl finished⟩))))
  | command took => exact .inl (handing.command? took)
  | work took => exact .inr (.inr (.inl ⟨_, took⟩))
  | dial => exact .inl (handing.dial ..)
  | resume took => exact .inl (handing.resume? took)
  | receive took => exact .inl (handing.receive? took)
  | expire waits => exact .inr (.inr (.inr (.inr (.inl ⟨_, waits, .inr rfl⟩))))
  | tick clock =>
    exact .inl (handing.outside rfl (fun _ waits => waits) (Nat.le_refl _) fun _ _ told => told)

end Handing

namespace Telling

variable (telling : Telling R)

include telling

/-- The moves at which more may happen than a telling frame allows: somebody from outside tells
whoever waits something, a worker takes a turn, a context is deleted, or an execution waits no
longer. -/
theorem move {P : Act → Prop} (move : Move P n n') :
    R n n' ∨ (∃ t m, P (.notify t m) ∧ n' = n.modify t (·.notify m)) ∨
      (∃ t, n.work? t = some n') ∨
        (∃ t channel tx, n' = n.act (.deleteContext t channel tx)) ∨
          ∃ call ∈ n.calls, n.finish? call = some n' ∨ n' = n.expire call := by
  rcases telling.toHanding.move move with kept | told | worked | deleted | waits | ⟨t, c, rfl⟩
  · exact .inl kept
  · exact .inr (.inl told)
  · exact .inr (.inr (.inl worked))
  · exact .inr (.inr (.inr (.inl deleted)))
  · exact .inr (.inr (.inr (.inr waits)))
  · exact .inl (telling.polled n t c)

end Telling

end Node

end ContractNode
