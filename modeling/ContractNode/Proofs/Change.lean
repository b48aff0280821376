import ContractNode.Node.Run
import ContractNode.Proofs.Begin

/-!
# What operations change

* `Session.Talks`, `Node.Talks` : a session exchanges messages, and nothing else about it changes
  (`talks_send`, `talks_enqueue`, `talks_act`);
* `deregister_eq`, `Registering` : a session gives its key up, and a contract wants to register;
* `endSession_eq` : a session ends;
* `answer_eq` : a request is answered;
* `released`, `finish?_cases`, `expire_cases` : an execution waits no longer;
* `beginCall_cases` : a call is run.
-/

namespace ContractNode

/-! ## Messages -/

theorem Link.eq_of_send {l l' : Link} {m : Message} (sent : l.send m = .ok l') :
    l' = { l with outbox := { l.outbox with queue := l.outbox.queue ++ [m] } } := by
  unfold Link.send at sent
  split at sent
  · cases sent
  · split at sent
    · cases sent
    · rename_i p on
      cases sent
      rw [(Pipe.send_eq_some_iff.1 on).2.2]

/-- A session exchanges messages: its connection, its waiter and the queue of its outbound loop
change, and what is in the queue stays there. -/
inductive Session.Talks (ses : Session) : Session → Prop
  | intro (link : Link) (waiter : Option ReadyWaiter) (commands : List Instruction)
      (kept : ∀ i ∈ ses.commands, i ∈ commands) : Talks ses { ses with link, waiter, commands }

namespace Session

variable {ses ses' : Session}

namespace Talks

theorem refl (ses : Session) : ses.Talks ses :=
  .intro ses.link ses.waiter ses.commands fun _ there => there

theorem linked (ses : Session) (link : Link) : ses.Talks { ses with link } :=
  .intro link ses.waiter ses.commands fun _ there => there

theorem waited (ses : Session) (waiter : Option ReadyWaiter) : ses.Talks { ses with waiter } :=
  .intro ses.link waiter ses.commands fun _ there => there

theorem transactions (h : ses.Talks ses') : ses'.transactions = ses.transactions := by
  cases h with
  | intro => rfl

theorem pool (h : ses.Talks ses') : ses'.pool = ses.pool := by
  cases h with
  | intro => rfl

theorem phase (h : ses.Talks ses') : ses'.phase = ses.phase := by
  cases h with
  | intro => rfl

end Talks

theorem talks_of_send {m : Message} (h : ses.send m = .ok ses') : ses.Talks ses' := by
  unfold send at h
  split at h
  · cases h
  · cases h
    exact .linked ses _

theorem talks_sendAnyway (ses : Session) (m : Message) : ses.Talks (ses.sendAnyway m) := by
  unfold sendAnyway
  cases sent : ses.send m with
  | error e => exact .refl ses
  | ok ses' => exact talks_of_send sent

theorem talks_enqueue (ses : Session) (c : Command) : ses.Talks (ses.enqueue c).2 := by
  unfold enqueue
  split
  · exact .refl ses
  · exact .intro ses.link ses.waiter _ fun _ => List.mem_append_left _

theorem talks_announce (ses : Session) : ses.Talks ses.announce := by
  unfold announce
  split
  · exact .waited ses _
  · exact talks_enqueue ..

theorem talks_reply (ses : Session) (kind : RequestKind) (m : Message) :
    ses.Talks (ses.reply kind m) := by
  unfold reply
  split
  · exact talks_sendAnyway ..
  · exact talks_enqueue ..

end Session

namespace Node

inductive Talks (n : Node) (s : SessionId) : Node → Prop
  | intro {f : Session → Session}
      (talks : ∀ ses, n.session? s = some ses → ses.Talks (f ses)) : Talks n s (n.modify s f)

theorem Talks.refl (n : Node) (s : SessionId) : n.Talks s n := by
  have still : n.Talks s (n.modify s id) := .intro fun ses _ => .refl ses
  rwa [modify_self (f := id) fun _ _ => rfl] at still

theorem talks_send (n : Node) (s : SessionId) (m : Message) : n.Talks s (n.send s m).2 := by
  unfold send
  split
  · exact .refl n s
  · rename_i ses found
    cases sent : ses.send m with
    | error e => exact .refl n s
    | ok ses' =>
      refine .intro fun ses₁ found₁ => ?_
      cases Option.some.inj (found.symm.trans found₁)
      exact Session.talks_of_send sent

theorem talks_enqueue (n : Node) (s : SessionId) (c : Command) : n.Talks s (n.enqueue s c).2 := by
  unfold enqueue
  split
  · exact .refl n s
  · exact .intro fun ses _ => ses.talks_enqueue c

theorem talks_modifyLink (n : Node) (s : SessionId) (f : Link → Link) :
    n.Talks s (n.modifyLink s f) := .intro fun ses _ => .linked ses _

theorem talks_fromContract (n : Node) (s : SessionId) (arrival : Except StreamError Message) :
    n.Talks s (n.fromContract s arrival).2 := by
  unfold fromContract
  split
  · exact .refl n s
  · split
    · exact .refl n s
    · exact .intro fun ses _ => .linked ses _

theorem talks_drain (n : Node) (s : SessionId) : n.Talks s (n.drain s).2 := by
  unfold drain
  split
  · exact .refl n s
  · exact talks_modifyLink n s fun l => l.drain.2

theorem talks_pollReady (n : Node) (s : SessionId) : n.Talks s (n.pollReady s).2 := by
  unfold pollReady
  split
  · exact .intro fun ses _ => .waited ses _
  · exact .refl n s

end Node

/-- The session that an act has exchange messages, if it is such an act. -/
def Act.talker? : Act → Option SessionId
  | .contractSends s _ | .breakReceive s _ | .contractReads s | .contractCloses s | .contractDrops s
  | .breakSend s _ | .trigger s _ _ | .send s _ | .awaitReady s _ | .pollReady s | .dropReady s =>
    some s
  | _ => none

namespace Node

theorem talks_act (n : Node) {a : Act} {s : SessionId} (talker : a.talker? = some s) :
    n.Talks s (n.act a) := by
  cases a with
  | contractSends t m =>
    cases talker
    exact talks_fromContract n s (.ok m)
  | breakReceive t e =>
    cases talker
    exact talks_fromContract n s (.error e)
  | contractReads t =>
    cases talker
    exact talks_drain n s
  | contractCloses t =>
    cases talker
    exact talks_modifyLink n s Link.closeContract
  | contractDrops t =>
    cases talker
    exact talks_modifyLink n s Link.dropContract
  | breakSend t broken =>
    cases talker
    exact talks_modifyLink n s fun l => { l with broken }
  | trigger t m forward =>
    cases talker
    exact talks_enqueue n s _
  | send t m =>
    cases talker
    exact talks_send n s m
  | awaitReady t capacity =>
    cases talker
    exact .intro fun ses _ => .waited ses _
  | pollReady t =>
    cases talker
    exact talks_pollReady n s
  | dropReady t =>
    cases talker
    exact .intro fun ses _ => .waited ses _
  | _ => cases talker

/-! ## Other acts -/

theorem session?_openSession {n : Node} {config : SessionConfig} {access : AccessPolicy}
    {launcher : Launcher} {s : SessionId} {ses : Session}
    (found : (n.openSession config access launcher).2.session? s = some ses) :
    n.session? s = some ses ∨
      n.session? s = none ∧ ses = { config, access, launcher } := by
  change (n.sessions ++ [_])[s]? = some ses at found
  rw [List.getElem?_append] at found
  split at found
  · exact .inl found
  · rename_i beyond
    rw [List.getElem?_singleton] at found
    split at found
    · cases found
      exact .inr ⟨List.getElem?_eq_none (Nat.le_of_not_lt beyond), rfl⟩
    · cases found

theorem session?_of_openSession {n : Node} (config : SessionConfig) (access : AccessPolicy)
    (launcher : Launcher) {s : SessionId} {ses : Session} (found : n.session? s = some ses) :
    (n.openSession config access launcher).2.session? s = some ses :=
  (List.getElem?_append_left (List.getElem?_eq_some_iff.1 found).1).trans found

theorem start_cases (n : Node) (s : SessionId) :
    (n.start s).2 = n ∨ ∃ ses, n.session? s = some ses ∧ ses.outbound = .idle ∧
      (n.start s).2 =
        n.modify s fun ses => { ses with inbound := .running, outbound := .running } := by
  unfold start Session.start
  cases found : n.session? s with
  | none => exact .inl rfl
  | some ses =>
    by_cases idle : ses.outbound = .idle
    · refine .inr ⟨ses, rfl, idle, ?_⟩
      simp only [idle, if_true]
      exact (modify_found found fun ses =>
        { ses with inbound := .running, outbound := .running }).symm
    · refine .inl ?_
      simp only [idle, if_false]

theorem seed_eq (n : Node) (channel tx space : String) (collection : Option String)
    (entries : List (String × Bytes)) :
    ∃ ledger, (n.seed channel tx space collection entries).2 = { n with ledger } := by
  unfold seed
  split
  · exact ⟨n.ledger, rfl⟩
  · exact ⟨_, rfl⟩

theorem registerKey_eq (n : Node) (key : String) (s : SessionId) :
    ∃ directory, (n.registerKey key s).2 = { n with directory } := by
  unfold registerKey
  split
  · exact ⟨n.directory, rfl⟩
  · exact ⟨_, rfl⟩

/-- A message is taken out of the slot of a context, if there is one. -/
def polled (n : Node) (s : SessionId) (c : Nat) : Node :=
  n.modifyContext s c fun ctx => { ctx with slot := ctx.slot.receive.2 }

theorem poll_cases (n : Node) (s : SessionId) (c : Nat) :
    n.context? s c = none ∧ n.poll s c = (none, n) ∨
      ∃ ctx, n.context? s c = some ctx ∧ n.poll s c = (ctx.slot.message, n.polled s c) := by
  unfold poll
  cases known : n.context? s c with
  | none => exact .inl ⟨rfl, rfl⟩
  | some ctx => exact .inr ⟨ctx, rfl, rfl⟩

/-! ## Registration -/

/-- Giving a key up changes the directory and, of the session, that it holds the key. -/
theorem deregister_eq (n : Node) (s : SessionId) : ∃ directory, n.deregister s =
    { n.modify s fun ses => { ses with isRegistered := false } with directory } := by
  have still (h : ∀ ses, n.session? s = some ses → ses.isRegistered = false) :
      n = { n.modify s fun ses => { ses with isRegistered := false } with
        directory := n.directory } := by
    rw [modify_self fun ses found => by rw [← h ses found]]
  unfold deregister
  cases found : n.session? s with
  | none =>
    refine ⟨n.directory, still fun ses found' => ?_⟩
    rw [found] at found'
    cases found'
  | some ses =>
    simp only
    cases registered : ses.isRegistered with
    | false =>
      refine ⟨n.directory, still fun ses' found' => ?_⟩
      cases Option.some.inj (found.symm.trans found')
      exact registered
    | true =>
      simp only [if_true]
      split
      · exact ⟨n.directory, rfl⟩
      · exact ⟨_, rfl⟩

theorem session?_deregister {n : Node} {s : SessionId} {ses : Session}
    (found : n.session? s = some ses) :
    (n.deregister s).session? s = some { ses with isRegistered := false } := by
  obtain ⟨directory, left⟩ := n.deregister_eq s
  rw [left]
  exact session?_modify found

theorem session?_deregister_other (n : Node) {s t : SessionId} (other : s ≠ t) :
    (n.deregister s).session? t = n.session? t := by
  obtain ⟨directory, left⟩ := n.deregister_eq s
  rw [left]
  show (n.modify s fun ses => { ses with isRegistered := false }).session? t = n.session? t
  rw [session?_modify_if, if_neg other]

/-- A session that is not registered has no key to give up. -/
theorem deregister_off {n : Node} {s : SessionId} {ses : Session}
    (found : n.session? s = some ses) (off : ses.isRegistered = false) : n.deregister s = n := by
  simp [deregister, found, off]

def listed (n : Node) (s : SessionId) (id : ContractId) (directory : Directory) : Node :=
  { n with directory }.modify s fun ses =>
    { ses with
      isRegistered := true, identity := some id
      place := some (ContractInstance.ofName id.name) }

inductive Registering (n : Node) (s : SessionId) (m : Message) :
    Except SessionError Unit → Node → Prop
  | refused (e : SessionError) : Registering n s m (.error e) n
  | unsent {n' : Node} {id : ContractId} {d : Directory} (e : SessionError)
      (free : n.directory.register (ContractInstance.ofName id.name).key s = .ok d)
      (given : n' = (n.listed s id d).deregister s)
      (decoded : ContractId.codec.decode m.payload = .ok id) : Registering n s m (.error e) n'
  | told {n' : Node} {id : ContractId} {d : Directory} (link : Link)
      (free : n.directory.register (ContractInstance.ofName id.name).key s = .ok d)
      (sent : n' = (n.listed s id d).modify s fun ses => { ses with link })
      (decoded : ContractId.codec.decode m.payload = .ok id)
      (linked : ∃ ses, (n.listed s id d).session? s = some ses ∧
        ses.link.send { kind := .registered } = .ok link) : Registering n s m (.ok ()) n'

theorem send_cases (n : Node) (s : SessionId) (m : Message) :
    (∃ e, n.send s m = (.error e, n)) ∨
      ∃ ses link, n.session? s = some ses ∧ ses.link.send m = .ok link ∧
        n.send s m = (.ok (), n.modify s fun ses => { ses with link }) := by
  unfold Node.send Session.send
  cases found : n.session? s with
  | none => exact .inl ⟨_, rfl⟩
  | some ses =>
    simp only
    cases sent : ses.link.send m with
    | error e => exact .inl ⟨_, rfl⟩
    | ok link =>
      refine .inr ⟨ses, link, rfl, sent, ?_⟩
      rw [modify_found found fun ses => { ses with link := link }]

theorem sendNow_cases (n : Node) (s : SessionId) (m : Message) :
    n.sendNow s m = (false, n) ∨
      ∃ ses link, n.session? s = some ses ∧ ses.link.send m = .ok link ∧
        n.sendNow s m = (true, n.modify s fun ses => { ses with link }) := by
  unfold sendNow
  by_cases kind : m.kind = .ready
  · rw [if_pos kind]
    rcases n.send_cases s m with ⟨e, sent⟩ | ⟨ses, link, found, linked, sent⟩
    · rw [sent]
      exact .inl rfl
    · rw [sent]
      exact .inr ⟨ses, link, found, linked, rfl⟩
  · rw [if_neg kind]
    exact .inl rfl

theorem registering_register (n : Node) (s : SessionId) (m : Message) :
    Registering n s m (n.register s m).1 (n.register s m).2 := by
  unfold register
  cases decoded : ContractId.codec.decode m.payload with
  | error e => exact .refused _
  | ok id =>
    simp only
    cases free : n.directory.register (ContractInstance.ofName id.name).key s with
    | error e => exact .refused _
    | ok d =>
      rcases send_cases (n.listed s id d) s { kind := .registered } with
        ⟨e, sent⟩ | ⟨ses, link, found, linked, sent⟩
      all_goals
        unfold listed at sent
        simp only [sent]
      · exact .unsent e free rfl decoded
      · exact .told link free rfl decoded ⟨ses, found, linked⟩

/-- A session that a contract wants to register on stays in its phase. -/
theorem phase_register {n : Node} {s : SessionId} {ses : Session} {m : Message}
    (found : n.session? s = some ses) :
    ∃ ses', (n.register s m).2.session? s = some ses' ∧ ses'.phase = ses.phase := by
  have registering := registering_register n s m
  generalize n.register s m = p at registering ⊢
  obtain ⟨outcome, n'⟩ := p
  have listed (id : ContractId) (d : Directory) : (n.listed s id d).session? s = some _ :=
    session?_modify found
  cases registering with
  | refused e => exact ⟨ses, found, rfl⟩
  | unsent e free given =>
    rw [given]
    exact ⟨_, session?_deregister (listed _ _), rfl⟩
  | told link free sent =>
    rw [sent]
    exact ⟨_, session?_modify (listed _ _), rfl⟩

/-! ## The end of a session -/

theorem phase_found {n : Node} {s : SessionId} {ses : Session} {phase : Phase}
    (found : n.session? s = some ses) (h : ses.phase = phase) :
    n.setPhase s phase = n :=
  modify_self fun ses' found' => by
    cases Option.some.inj (found.symm.trans found')
    subst h
    rfl

/-- Everybody who waits on a session is told that it ends. -/
def farewelled (n : Node) (s : SessionId) : Node :=
  n.modify s fun ses => (ses.notify { kind := .error, payload := Session.farewell }).notifyAll

/-- A session that gives its key up, and stops. -/
def closed (n : Node) (s : SessionId) : Node :=
  (n.deregister s).modify s fun ses => { ses with phase := .ended }.stop

theorem endSession_of_ended {n : Node} {s : SessionId} {ses : Session}
    (found : n.session? s = some ses) (ended : ses.phase = .ended) :
    n.endSession s = n.closed s := by
  have left : n.endSession s = (n.deregister s).modify s Session.stop := by
    simp only [endSession, found, Hooks.terminate, ended, if_true]
    rw [phase_found found ended]
  rw [left]
  refine modify_congr fun ses' found' => ?_
  rw [session?_deregister found] at found'
  cases found'
  rw [← ended]

theorem endSession_of_live {n : Node} {s : SessionId} {ses : Session}
    (found : n.session? s = some ses) (live : ses.phase ≠ .ended) :
    n.endSession s = (n.farewelled s).closed s := by
  have left : n.endSession s =
      ((((n.farewelled s).deregister s).setPhase s .ended).deregister s).modify s Session.stop := by
    simp [endSession, found, Hooks.terminate, live, Hooks.runEnter, hooks, Hooks.run, farewelled]
  have told : (n.farewelled s).session? s = some _ := session?_modify found
  have past : (((n.farewelled s).deregister s).setPhase s .ended).session? s = some _ :=
    session?_modify (session?_deregister told)
  -- The second time, there is no key left to give up.
  rw [left, deregister_off past rfl]
  exact modify_modify ..

theorem endSession_eq {n : Node} {s : SessionId} {ses : Session}
    (found : n.session? s = some ses) :
    n.endSession s = (if ses.phase = .ended then n else n.farewelled s).closed s := by
  split
  · rename_i ended
    exact endSession_of_ended found ended
  · rename_i live
    exact endSession_of_live found live

/-! ## Executions -/

theorem answer_eq (n : Node) (s : SessionId) (job : Job) (result : Except SessionError Bytes) :
    n.answer s job result = n.modify s fun ses =>
      { ses with transactions :=
        ses.transactions.unmark job.message.channel job.message.tx }.reply job.kind
          (reply job.message result) := rfl

/-- An execution waits no longer: its context, which is changed by `f`, is not registered any
more. -/
def released (n : Node) (call : Call) (ctx : Context) (f : Context → Context) : Node :=
  (n.modify call.session fun ses =>
    { ses with
      transactions := (ses.transactions.modify call.context f).delete ctx.channel ctx.tx }).forget
        call

theorem retire_eq (n : Node) (call : Call) (c : Context) :
    n.retire call c = n.released call c fun c => { c with slot := c.slot.drop } := by
  simp only [retire, released, modifyContext, deleteContext, modify_modify]
  rfl

theorem finish?_cases {n n' : Node} {call : Call} (finished : n.finish? call = some n') :
    ∃ ctx m, n.context? call.session call.context = some ctx ∧ ctx.slot.message = some m ∧
      n' = (n.released call ctx fun c => { c with slot := c.slot.drop }).deliver call.origin
        (.ok m) := by
  unfold finish? at finished
  split at finished
  · cases finished
  · rename_i ctx known
    split at finished
    · cases finished
    · rename_i m held
      cases finished
      exact ⟨ctx, m, known, held, by rw [retire_eq]⟩

theorem expire_cases (n : Node) (call : Call) :
    n.context? call.session call.context = none ∧ n.expire call = n.forget call ∨
      ∃ ctx, n.context? call.session call.context = some ctx ∧ n.expire call =
        (n.released call ctx fun c => { c.closeCursors with slot := c.slot.drop }).deliver
          call.origin (.error (.timeout ctx.tx)) := by
  unfold expire
  cases known : n.context? call.session call.context with
  | none => exact .inl ⟨rfl, rfl⟩
  | some ctx =>
    refine .inr ⟨ctx, rfl, ?_⟩
    simp only [discard, released, modifyContext, deleteContext, modify_modify]
    rfl

theorem beginCall_cases {n n' : Node} {t : SessionId} {i : Invocation} {origin : Origin}
    {r : Except SessionError Unit} (begun : n.beginCall t i origin = (r, n')) :
    (∃ e, r = .error e ∧ n' = n) ∨ ∃ m c, called i = .ok (m, c) ∧ Begun n t c m origin r n' := by
  unfold beginCall at begun
  split at begun
  · cases begun
    exact .inl ⟨_, rfl, rfl⟩
  · rename_i m c made
    have comes := begun_begin n t c m origin
    rw [begun] at comes
    exact .inr ⟨m, c, made, comes⟩

end Node

end ContractNode
