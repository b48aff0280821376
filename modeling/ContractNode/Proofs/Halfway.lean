import ContractNode.Proofs.Listed
import Mathlib.Logic.Function.Basic

/-!
# In the middle of a registration

A session is registered by one statement after the other: the directory lists it, it takes itself to
be registered, the identity and the name that its contract stated are kept, and the contract is told.
It gives its key up like that too: it takes itself to be registered no longer, the name is looked up,
and the key is free. Between two of these statements anything can happen that does not have to wait
for the lifecycle of the session.

* `Leaving`, `Joining`, `Thread` : what a thread has yet to do that gives a key up, or registers a
  session;
* `Thread.next` : its next statement;
* `run_registers`, `run_deregisters` : statements that nothing comes between are `Node.handle` and
  `Node.deregister`;
* `Node.shut`, `Halts` : a session ends, and has yet to give its key up;
* `Scene`, `Stage`, `Stages` : a node and the threads that are in the middle of something, and what
  can happen;
* `stages_of_moves` : moves that nothing comes between.
-/

namespace ContractNode

/-- What a thread has to do next that gives the key of a session up. -/
inductive Leaving
  /-- The session takes itself not to be registered, if it does. -/
  | strike
  /-- The name of its contract is looked up. -/
  | look
  | vacate (key : String)
deriving DecidableEq

/-- What a thread has to do next that registers a session, which the directory lists already. -/
inductive Joining
  | flag
  | identity
  | place
  /-- The contract is told. -/
  | tell
  | establish
  /-- The contract cannot be told. -/
  | undo (x : Leaving)
deriving DecidableEq

/-- How a message comes to be shown to a session. -/
inductive Showing
  | handed
  | received
  | triggered (c : Command)
deriving DecidableEq

/-- A thread in the middle of something. -/
inductive Thread
  /-- It registers a session as the given identity, and holds its lifecycle for that. -/
  | registers (s : SessionId) (id : ContractId) (next : Joining) (how : Showing)
  /-- It has shown a message to a session. -/
  | follows (s : SessionId) (how : Showing)
  /-- It gives the key of a session up. -/
  | deregisters (s : SessionId) (next : Leaving)
deriving DecidableEq

namespace Node

/-! ## The end of a session -/

/-- A session ends, but for giving its key up. -/
def shut (n : Node) (s : SessionId) : Node :=
  (if (n.session? s).any (·.phase == .ended) then n else n.farewelled s).modify s fun ses =>
    { ses with phase := .ended }.stop

/-- The inbound loop of a session stops, and the session has yet to give its key up. -/
def haltInbound (n : Node) (s : SessionId) : Node :=
  (n.modify s fun ses => { ses with inbound := .stopped }).shut s

/-- The outbound loop of a session stops, and the session has yet to give its key up. -/
def haltOutbound (n : Node) (s : SessionId) : Node :=
  (n.shut s).modify s fun ses => { ses with outbound := .stopped, commands := [] }

end Node

/-! ## Statements -/

def Leaving.next (n : Node) (s : SessionId) : Leaving → Node × Option Leaving
  | .strike =>
    if (n.session? s).any (·.isRegistered) then
      (n.modify s fun ses => { ses with isRegistered := false }, some .look)
    else (n, none)
  | .look => (n, ((n.session? s).bind (·.place)).map fun i => .vacate i.key)
  | .vacate key => ({ n with directory := n.directory.deregister key }, none)

def Joining.next (n : Node) (s : SessionId) (id : ContractId) : Joining → Node × Option Joining
  | .flag => (n.modify s fun ses => { ses with isRegistered := true }, some .identity)
  | .identity => (n.modify s fun ses => { ses with identity := some id }, some .place)
  | .place =>
    (n.modify s fun ses => { ses with place := some (ContractInstance.ofName id.name) }, some .tell)
  | .tell =>
    match n.send s { kind := .registered } with
    | (.ok (), n') => (n', some .establish)
    | (.error _, n') => (n', some (.undo .strike))
  | .establish => ((n.modify s Session.announce).setPhase s .established, none)
  | .undo x => ((x.next n s).1, (x.next n s).2.map .undo)

/-- The next statement of a thread, and what it has to do after that. -/
def Thread.next (n : Node) : Thread → Node × Option Thread
  | .registers s id e how =>
    match e.next n s id with
    | (n', some e') => (n', some (.registers s id e' how))
    | (n', none) => (n', some (.follows s how))
  | .follows _ .handed => (n, none)
  | .follows s .received =>
    if (n.session? s).any (·.phase == .ended) then
      (n.haltInbound s, some (.deregisters s .strike))
    else (n, none)
  | .follows s (.triggered c) =>
    (if c.forward then n.modify s (·.sendAnyway c.message) else n, none)
  | .deregisters s x => ((x.next n s).1, (x.next n s).2.map (.deregisters s))

/-- The statements of a thread that nothing comes between, at most the given number of them. -/
def Thread.run : Nat → Node → Option Thread → Node × Option Thread
  | 0, n, th => (n, th)
  | _ + 1, n, none => (n, none)
  | k + 1, n, some th => Thread.run k (th.next n).1 (th.next n).2

namespace Node

variable {n n' : Node} {s : SessionId} {ses : Session} {m : Message} {id : ContractId}
  {d : Directory}

/-- When nothing comes between its statements, a session gives its key up at once. -/
theorem run_deregisters (n : Node) (s : SessionId) :
    Thread.run 3 n (some (.deregisters s .strike)) = (n.deregister s, none) := by
  cases found : n.session? s with
  | none => simp [Thread.run, Thread.next, Leaving.next, deregister, found]
  | some ses =>
    cases on : ses.isRegistered with
    | false => simp [Thread.run, Thread.next, Leaving.next, deregister, found, on]
    | true =>
      have struck : (n.modify s fun ses => { ses with isRegistered := false }).session? s = some _ :=
        session?_modify found
      cases place : ses.place with
      | none => simp [Thread.run, Thread.next, Leaving.next, deregister, found, on, struck, place]
      | some i => simp [Thread.run, Thread.next, Leaving.next, deregister, found, on, struck, place]

/-- The first statements of a registration. -/
theorem run_listed (n : Node) (s : SessionId) (id : ContractId) (d : Directory) (how : Showing)
    (k : Nat) :
    Thread.run (k + 3) { n with directory := d } (some (.registers s id .flag how)) =
      Thread.run k (n.listed s id d) (some (.registers s id .tell how)) := by
  simp only [Thread.run, Thread.next, Joining.next, listed, modify_modify]
  rfl

/-- The last statements of a registration that the contract cannot be told of. -/
theorem run_undo {i : ContractInstance} (found : n.session? s = some ses)
    (on : ses.isRegistered = true) (place : ses.place = some i) (id : ContractId) (how : Showing)
    (k : Nat) :
    Thread.run (k + 3) n (some (.registers s id (.undo .strike) how)) =
      Thread.run k (n.deregister s) (some (.follows s how)) := by
  have struck : (n.modify s fun ses => { ses with isRegistered := false }).session? s = some _ :=
    session?_modify found
  simp [Thread.run, Thread.next, Joining.next, Leaving.next, deregister, found, on, struck, place]

/-- When nothing comes between the statements of a registration, its message is shown at once. -/
theorem run_registers (found : n.session? s = some ses) (created : ses.phase = .created)
    (raised : Event.ofKind? m.kind = some .registered)
    (decoded : ContractId.codec.decode m.payload = .ok id)
    (free : n.directory.register (ContractInstance.ofName id.name).key s = .ok d) :
    Thread.run 8 { n with directory := d } (some (.registers s id .flag .handed)) =
      (n.handle s m, none) := by
  have listed : (n.listed s id d).session? s = some _ :=
    session?_modify (n := { n with directory := d }) found
  have apart : bypasses .created m.kind = false := rfl
  have refused {e n'} (failed : n.register s m = (.error e, n')) :
      n.handle s m = n'.setPhase s .created := by
    simp only [handle, found, apart, raised, created, Hooks.raise, Phase.next?, hooks, Hooks.run,
      failed]
    simp
  have accepted {n'} (registered : n.register s m = (.ok (), n')) :
      n.handle s m = (n'.modify s Session.announce).setPhase s .established := by
    simp only [handle, found, apart, raised, created, Hooks.raise, Phase.next?, hooks, Hooks.run,
      registered]
    simp [Hooks.runEnter, Hooks.runAfter, Hooks.run, RequestKind.ofEvent?]
  rw [run_listed]
  rcases (n.listed s id d).send_cases s { kind := .registered } with
    ⟨e, sent⟩ | ⟨ses', link, _, _, sent⟩
  · have registered : n.register s m = (.error e, (n.listed s id d).deregister s) := by
      simp only [register, decoded, free]
      unfold Node.listed at sent
      rw [sent]
      rfl
    have left : ((n.listed s id d).deregister s).setPhase s .created =
        (n.listed s id d).deregister s := phase_found (session?_deregister listed) created
    rw [refused registered, left]
    simp only [Thread.run, Thread.next, Joining.next, sent]
    exact run_undo listed rfl rfl id .handed 1
  · have registered : n.register s m =
        (.ok (), (n.listed s id d).modify s fun ses => { ses with link }) := by
      simp only [register, decoded, free]
      unfold Node.listed at sent
      rw [sent]
      rfl
    rw [accepted registered]
    simp [Thread.run, Thread.next, Joining.next, sent]

/-! ## Ends -/

/-- A change of a session that has nothing to do with its key comes before or after it is given
up. -/
theorem deregister_modify (n : Node) (s : SessionId) (f : Session → Session)
    (isRegistered : ∀ ses, (f ses).isRegistered = ses.isRegistered)
    (place : ∀ ses, (f ses).place = ses.place)
    (commutes : ∀ ses, f { ses with isRegistered := false } =
      { f ses with isRegistered := false }) :
    (n.modify s f).deregister s = (n.deregister s).modify s f := by
  cases found : n.session? s with
  | none =>
    have still (g : Session → Session) : n.modify s g = n :=
      modify_self fun ses found' => by rw [found] at found'; cases found'
    have same : n.deregister s = n := by simp [deregister, found]
    rw [still, same, still]
  | some ses =>
    have found' : (n.modify s f).session? s = some (f ses) := session?_modify found
    have struck : (n.modify s f).modify s (fun ses => { ses with isRegistered := false }) =
        (n.modify s fun ses => { ses with isRegistered := false }).modify s f :=
      modify_comm _ _ _ commutes
    unfold deregister
    simp only [found, found', isRegistered, place]
    split
    · rw [struck]
      split
      · rfl
      · rfl
    · rfl

theorem endSession_eq_shut (n : Node) (s : SessionId) :
    n.endSession s = (n.shut s).deregister s := by
  cases found : n.session? s with
  | none =>
    have still (g : Session → Session) : n.modify s g = n :=
      modify_self fun ses found' => by rw [found] at found'; cases found'
    simp [endSession, shut, farewelled, deregister, found, still]
  | some ses =>
    rw [endSession_eq found, shut, found]
    simp only [Option.any_some, beq_iff_eq]
    exact (deregister_modify _ s (fun ses => { ses with phase := .ended }.stop) (fun _ => rfl)
      (fun _ => rfl) fun _ => rfl).symm

theorem stopInbound_eq (n : Node) (s : SessionId) :
    n.stopInbound s = (n.haltInbound s).deregister s := endSession_eq_shut _ s

theorem stopOutbound_eq (n : Node) (s : SessionId) :
    n.stopOutbound s = (n.haltOutbound s).deregister s := by
  have last := (n.shut s).deregister_modify s
    (fun ses => { ses with outbound := .stopped, commands := [] }) (fun _ => rfl) (fun _ => rfl)
    fun _ => rfl
  rw [← endSession_eq_shut] at last
  exact last.symm

/-- A loop of a session stops, and the session has yet to give its key up. -/
inductive Halts (s : SessionId) : Node → Node → Prop
  | closed {n : Node} {ses : Session} {inbox : Pipe (Except StreamError Message)}
      (found : n.session? s = some ses) (running : ses.inbound = .running)
      (taken : ses.link.inbox.receive = (.endOfStream, inbox)) : Halts s n (n.haltInbound s)
  | broken {n : Node} {ses : Session} {e : StreamError}
      {inbox : Pipe (Except StreamError Message)} (found : n.session? s = some ses)
      (running : ses.inbound = .running)
      (taken : ses.link.inbox.receive = (.item (.error e), inbox)) :
      Halts s n ((n.modify s (·.withInbox inbox)).haltInbound s)
  /-- A message finds the session ended. -/
  | late {n : Node} {ses : Session} {m : Message} {inbox : Pipe (Except StreamError Message)}
      (found : n.session? s = some ses) (running : ses.inbound = .running)
      (taken : ses.link.inbox.receive = (.item (.ok m), inbox)) (other : m.kind ≠ .keepalive)
      (ended : (((n.modify s (·.withInbox inbox)).handle s m).session? s).any
        (·.phase == .ended) = true) :
      Halts s n (((n.modify s (·.withInbox inbox)).handle s m).haltInbound s)
  | shutdown {n : Node} {ses : Session} {rest : List Instruction}
      (found : n.session? s = some ses) (running : ses.outbound = .running)
      (queued : ses.commands = .shutdown :: rest) :
      Halts s n ((n.modify s fun ses => { ses with commands := rest }).haltOutbound s)
  /-- A message that may not fail to be forwarded does. -/
  | unsent {n n' : Node} {ses : Session} {c : Command} {rest : List Instruction}
      (found : n.session? s = some ses) (running : ses.outbound = .running)
      (queued : ses.commands = .next c :: rest) (forward : c.forward = true) (sync : c.sync = true)
      (failed : ((n.modify s fun ses => { ses with commands := rest }).handle s c.message).sendNow
        s c.message = (false, n')) : Halts s n (n'.haltOutbound s)

/-- It is a move that the session gives its key up at once when a loop stops. -/
theorem Halts.move {P : Act → Prop} (h : Halts s n n') : Move P n (n'.deregister s) := by
  cases h with
  | closed found running taken =>
    refine .receive (s := s) ?_
    simp only [receive?, found, running, if_true, taken]
    rw [stopInbound_eq]
  | broken found running taken =>
    refine .receive (s := s) ?_
    simp only [receive?, found, running, if_true, taken]
    rw [stopInbound_eq]
  | late found running taken other ended =>
    refine .receive (s := s) ?_
    simp only [receive?, found, running, if_true, taken, arrive, other, if_false, ended]
    rw [stopInbound_eq]
  | shutdown found running queued =>
    refine .command (s := s) ?_
    simp only [command?, found, running, if_true, queued]
    rw [stopOutbound_eq]
  | unsent found running queued forward sync failed =>
    refine .command (s := s) ?_
    simp only [command?, found, running, if_true, queued, carryOut, forward, sync, failed]
    rw [stopOutbound_eq]

end Node

/-! ## Scenes -/

/-- A thread is registering a session, and holds its lifecycle for that. -/
def Held (threads : Nat → Option Thread) (s : SessionId) : Prop :=
  ∃ i id e how, threads i = some (.registers s id e how)

/-- A node, and the threads that are in the middle of something, by number. -/
structure Scene where
  node : Node
  threads : Nat → Option Thread

namespace Scene

variable {P : Act → Prop}

def still (n : Node) : Scene := ⟨n, fun _ => none⟩

def set (x : Scene) (i : Nat) (n : Node) (th : Option Thread) : Scene :=
  ⟨n, Function.update x.threads i th⟩

def advance (x : Scene) (i : Nat) (th : Thread) : Scene :=
  x.set i (th.next x.node).1 (th.next x.node).2

/-- Nothing happens to the lifecycle of a session. Messages that are shown to it are dropped, or have
to wait. -/
structure Spares (s : SessionId) (n n' : Node) : Prop where
  standing : n'.roll.standing s = n.roll.standing s
  shown : ∀ m, Node.Shows s m n n' → n'.roll = n.roll

/-- A message is about to be shown to a session: it is handed in, or a loop of the session has taken
it. -/
inductive Fetches (P : Act → Prop) (s : SessionId) (m : Message) : Showing → Node → Node → Prop
  | handed {n : Node} (given : P (.handle s m)) : Fetches P s m .handed n n
  | received {n : Node} {ses : Session} {inbox : Pipe (Except StreamError Message)}
      (found : n.session? s = some ses) (running : ses.inbound = .running)
      (taken : ses.link.inbox.receive = (.item (.ok m), inbox)) :
      Fetches P s m .received n (n.modify s (·.withInbox inbox))
  | triggered {n : Node} {ses : Session} {c : Command} {rest : List Instruction}
      (found : n.session? s = some ses) (running : ses.outbound = .running)
      (queued : ses.commands = .next c :: rest) (message : c.message = m)
      (async : c.sync = false) :
      Fetches P s m (.triggered c) n (n.modify s fun ses => { ses with commands := rest })

/-- One thing that happens: a move, though of none whose lifecycle is held; somebody from outside has
a session give its key up, or a loop of a session stops, which has yet to give its key up then; a
session is listed, which is shown that its contract registers; or a thread goes on. -/
inductive Stage (P : Act → Prop) : Scene → Scene → Prop
  | move {x : Scene} {n' : Node} (move : Node.Move P x.node n')
      (spares : ∀ s, Held x.threads s → Spares s x.node n') : Stage P x ⟨n', x.threads⟩
  | told {x : Scene} {i : Nat} {s : SessionId} (given : P (.deregister s))
      (idle : x.threads i = none) : Stage P x (x.set i x.node (some (.deregisters s .strike)))
  | halts {x : Scene} {i : Nat} {s : SessionId} {n' : Node} (halts : Node.Halts s x.node n')
      (free : ¬ Held x.threads s) (idle : x.threads i = none) :
      Stage P x (x.set i n' (some (.deregisters s .strike)))
  | lists {x : Scene} {i : Nat} {s : SessionId} {m : Message} {how : Showing} {n' : Node}
      {ses : Session} {id : ContractId} {d : Directory} (fetches : Fetches P s m how x.node n')
      (free : ¬ Held x.threads s) (idle : x.threads i = none) (found : n'.session? s = some ses)
      (created : ses.phase = .created) (raised : Event.ofKind? m.kind = some .registered)
      (decoded : ContractId.codec.decode m.payload = .ok id)
      (vacant : n'.directory.register (ContractInstance.ofName id.name).key s = .ok d) :
      Stage P x (x.set i { n' with directory := d } (some (.registers s id .flag how)))
  | next {x : Scene} {i : Nat} {th : Thread} (busy : x.threads i = some th) :
      Stage P x (x.advance i th)

/-- Any number of things that happen, in any order. -/
abbrev Stages (P : Act → Prop) : Scene → Scene → Prop := Relation.ReflTransGen (Stage P)

theorem not_held_still (n : Node) (s : SessionId) : ¬ Held (still n).threads s := by
  rintro ⟨_, _, _, _, busy⟩
  cases busy

/-- Moves that come one after the other, with no thread in the middle of anything. -/
theorem stages_of_moves {n n' : Node} (moves : Node.Moves P n n') :
    Stages P (still n) (still n') := by
  induction moves with
  | refl => exact .refl
  | tail _ move ih =>
    exact ih.tail (.move move fun s held => absurd held (not_held_still _ s))

end Scene

end ContractNode
