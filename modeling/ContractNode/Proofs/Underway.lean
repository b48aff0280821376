import ContractNode.Proofs.Scanned
import Mathlib.Logic.Function.Basic

/-!
# Requests and executions under way

A request is served by one statement after the other: its marker is claimed, it is read and its
context looked up, it is carried out, and it is answered, with the marker given back. An execution
returns like that too: it waits no longer, its cursors are closed if it has waited in vain, its context
is taken out of the index, and its result is delivered. Between two of these statements anything can
happen, in the same transaction as well.

* `Hand`, `Hand.next` : somebody in the middle of something, and the next statement;
* `run_claims`, `run_hears`, `run_lapses` : statements that nothing comes between are `Node.serve`,
  `Node.finish?` and `Node.expire`;
* `Floor`, `Stage`, `Stages` : a node and the hands that are in the middle of something, and what can
  happen;
* `Frame.next` : what the next statement of a hand leaves alone.
-/

namespace ContractNode

/-- A worker is done with a request. A call takes none up. -/
def Session.relieved (ses : Session) (job : Job) : Session :=
  if job.kind = .invoke then ses else { ses with pool := ses.pool.finish job }

/-- What a worker, a thread or an execution is to do next. -/
inductive Hand
  /-- It has a request, and is to claim its marker. -/
  | claims (s : SessionId) (job : Job)
  /-- It has the marker, and is to read the request and to look its context up. -/
  | looks (s : SessionId) (job : Job)
  /-- It is to carry the request out, in the context of a number. -/
  | holds (s : SessionId) (job : Job) (r : Request) (c : Nat)
  /-- It is to answer the request, and to give the marker back. -/
  | owes (s : SessionId) (job : Job) (result : Except SessionError Bytes)
  /-- It has waited in vain, and is to close the cursors of its context. -/
  | lapses (call : Call) (own : Context)
  /-- It is to take its context out of the index. -/
  | leaves (call : Call) (own : Context) (result : Except SessionError Message)
  /-- It is to deliver its result. -/
  | returns (origin : Origin) (result : Except SessionError Message)

namespace Node

def lookUp (n : Node) (s : SessionId) (m : Message) : Option Nat :=
  (n.session? s).bind fun ses =>
    (ses.transactions.find? m.channel m.tx).filter fun c => (ses.transactions.context? c).isSome

/-- An execution waits no longer, and holds its slot no longer. -/
def unheld (n : Node) (call : Call) : Node :=
  (n.modifyContext call.session call.context fun c => { c with slot := c.slot.drop }).forget call

/-- What is left of a request that was carried out. -/
def carried (s : SessionId) (job : Job) : Outcome × Node → Node × Option Hand
  | (.answered result, n) => (n, some (.owes s job result))
  | (.parked p, n) => (n.modify s fun ses => { ses with parked := ses.parked ++ [p] }, none)
  | (.calling, n) => (n.modify s (·.relieved job), none)

end Node

/-- The next statement of a hand, and what it is to do after that. -/
def Hand.next (n : Node) : Hand → Node × Option Hand
  | .claims s job =>
    if (n.session? s).any fun ses => !ses.transactions.markers.contains job.message.key then
      (n.modify s (·.claim job.message.key), some (.looks s job))
    else (n.modify s (·.relieved job), none)
  | .looks s job =>
    match Request.decode job.kind job.message.payload with
    | .error e => (n, some (.owes s job (.error (.codec e))))
    | .ok r =>
      match n.lookUp s job.message with
      | none => (n, some (.owes s job (.error
          (.missingContext job.message.channel job.message.tx))))
      | some c => (n, some (.holds s job r c))
  | .holds s job r c =>
    match n.session? s, n.context? s c with
    | some ses, some ctx => Node.carried s job (n.perform s ses c ctx job r)
    | _, _ => (n, none)
  | .owes s job result => ((n.answer s job result).modify s (·.relieved job), none)
  | .lapses call own =>
    (n.modifyContext call.session call.context Context.closeCursors,
      some (.leaves call own (.error (.timeout own.tx))))
  | .leaves call own result =>
    (n.deleteContext call.session own.channel own.tx, some (.returns call.origin result))
  | .returns origin result => (n.deliver origin result, none)

def Hand.quits : Hand → Bool
  | .leaves .. => true
  | _ => false

/-- Only an execution that has waited in vain comes to take its context out of the index. -/
theorem Hand.quits_next {n : Node} {h : Hand} (waits : ∀ call own, h ≠ .lapses call own) :
    (h.next n).2.any Hand.quits = false := by
  cases h with
  | claims s job =>
    simp only [next]
    split <;> rfl
  | looks s job =>
    simp only [next]
    split
    · rfl
    · split <;> rfl
  | holds s job r c =>
    simp only [next]
    split
    · rename_i ses ctx _ _
      rcases n.perform s ses c ctx job r with ⟨_ | _ | _, _⟩ <;> rfl
    · rfl
  | lapses call own => exact absurd rfl (waits call own)
  | owes | leaves | returns => rfl

/-- The statements of a hand that nothing comes between, at most the given number of them. -/
def Hand.run : Nat → Node → Option Hand → Node × Option Hand
  | 0, n, h => (n, h)
  | _ + 1, n, none => (n, none)
  | k + 1, n, some h => Hand.run k (h.next n).1 (h.next n).2

namespace Node

variable {n n' : Node} {s : SessionId} {job : Job}

theorem modifyContext_modifyContext (n : Node) (s : SessionId) (c : Nat) (f g : Context → Context) :
    (n.modifyContext s c f).modifyContext s c g = n.modifyContext s c (g ∘ f) := by
  simp only [modifyContext, modify_modify]
  refine modify_congr fun ses _ => ?_
  simp [Transactions.modify, List.modify_modify_eq]

/-- A worker or a thread has served a request. -/
def served (s : SessionId) (job : Job) : Option ParkedRead × Node → Node
  | (none, n) => n.modify s (·.relieved job)
  | (some p, n) => n.modify s fun ses => { ses with parked := ses.parked ++ [p] }

theorem claim_of_free {ses : Session} (found : n.session? s = some ses)
    (free : job.message.key ∉ ses.transactions.markers) : Hand.next n (.claims s job) =
      (n.modify s (·.claim job.message.key), some (.looks s job)) := by
  have unclaimed : (n.session? s).any
      (fun ses => !ses.transactions.markers.contains job.message.key) = true := by
    rw [found]
    simpa using free
  simp only [Hand.next, unclaimed, if_true]

/-- What follows once the marker of a request is claimed. -/
theorem run_looks {ses : Session} (found : n.session? s = some ses) (job : Job) :
    Hand.run 3 n (some (.looks s job)) =
      (served s job (match n.attempt s ses job with
        | (.answered result, n') => (none, n'.answer s job result)
        | (.parked p, n') => (some p, n')
        | (.calling, n') => (none, n')), none) := by
  unfold attempt
  cases decoded : Request.decode job.kind job.message.payload with
  | error e => simp only [Hand.run, Hand.next, decoded, served]
  | ok r =>
    cases there : ses.transactions.find? job.message.channel job.message.tx with
    | none =>
      have looked : n.lookUp s job.message = none := by simp [lookUp, found, there]
      simp only [Hand.run, Hand.next, decoded, looked, served]
    | some c =>
      cases known : ses.transactions.context? c with
      | none =>
        have looked : n.lookUp s job.message = none := by
          simp [lookUp, found, there, known, Option.filter]
        simp only [Hand.run, Hand.next, decoded, looked, known, served]
      | some ctx =>
        have looked : n.lookUp s job.message = some c := by
          simp [lookUp, found, there, known, Option.filter]
        have known' : n.context? s c = some ctx := context?_eq_some_iff.2 ⟨ses, found, known⟩
        simp only [Hand.run, Hand.next, decoded, looked, known, found, known']
        rcases n.perform s ses c ctx job r with ⟨result | p | _, n'⟩
        all_goals rfl

/-- When nothing comes between its statements, a request is served at once. -/
theorem run_claims (n : Node) (s : SessionId) (job : Job) :
    Hand.run 4 n (some (.claims s job)) = (served s job (n.serve s job), none) := by
  cases found : n.session? s with
  | none => simp [Hand.run, Hand.next, found, serve, served]
  | some ses =>
    by_cases held : job.message.key ∈ ses.transactions.markers
    · rw [serve_held found held]
      simp [Hand.run, Hand.next, found, held, served]
    · rw [serve_free found held]
      show Hand.run 3 (Hand.next n (.claims s job)).1 (Hand.next n (.claims s job)).2 = _
      rw [claim_of_free found held]
      exact run_looks (session?_modify found) job

/-- So is one that a worker has taken. -/
theorem work?_eq_run {ses : Session} {pool : WorkerPool Job} (found : n.session? s = some ses)
    (taken : ses.pool.take = some (.job job, pool)) (other : job.kind ≠ .invoke) :
    n.work? s = some (Hand.run 4 (n.modify s fun ses => { ses with pool })
      (some (.claims s job))).1 := by
  rw [work?_of_job found taken, run_claims]
  rcases (n.modify s fun ses => { ses with pool }).serve s job with ⟨_ | p, n'⟩
  · simp only [conclude, served, Session.relieved, other, if_false]
  · rfl

/-- So is a call, which never waits for a key. -/
theorem dial_eq_run (n : Node) (s : SessionId) (m : Message) :
    n.dial s m = (Hand.run 4 (n.modify s (·.pickUp m)) (some (.claims s ⟨.invoke, m⟩))).1 := by
  rw [run_claims, dial]
  have serves := served_serve (n.modify s (·.pickUp m)) s ⟨.invoke, m⟩
  generalize (n.modify s (·.pickUp m)).serve s ⟨.invoke, m⟩ = r at serves ⊢
  obtain ⟨_ | p, n'⟩ := r
  · exact (modify_self fun _ _ => if_pos rfl).symm
  · cases serves with
    | parked _ read => cases read

section Returns

variable {call : Call} {own : Context} {m : Message}

/-- When nothing comes between its statements, an execution that has its message returns at once. -/
theorem run_hears (known : n.context? call.session call.context = some own)
    (told : own.slot.message = some m) :
    n.finish? call = some (Hand.run 2 (n.unheld call) (some (.leaves call own (.ok m)))).1 := by
  simp only [finish?, known, told]
  rfl

/-- When nothing comes between its statements, an execution that has waited in vain returns at
once. -/
theorem run_lapses (known : n.context? call.session call.context = some own) :
    n.expire call = (Hand.run 3 (n.unheld call) (some (.lapses call own))).1 := by
  have closed : (n.unheld call).modifyContext call.session call.context Context.closeCursors =
      (n.modifyContext call.session call.context
        fun c => { c.closeCursors with slot := c.slot.drop }).forget call :=
    congrArg (·.forget call) (n.modifyContext_modifyContext ..)
  simp only [expire, known, Hand.run, Hand.next, closed]
  rfl

/-- What holds between a node and what follows each statement, and when an execution waits no longer,
holds when one returns. -/
theorem of_ends {R : Node → Node → Prop} (trans : ∀ {n n' n''}, R n n' → R n' n'' → R n n'')
    (forgets : R n (n.forget call)) (waits : R n (n.unheld call)) (next : ∀ n h, R n (Hand.next n h).1)
    (ends : n.finish? call = some n' ∨ n' = n.expire call) : R n n' := by
  rcases ends with finished | rfl
  · obtain ⟨own, m, known, told, _⟩ := finish?_cases finished
    cases (run_hears known told).symm.trans finished
    exact trans (trans waits (next _ _)) (next _ _)
  · cases known : n.context? call.session call.context with
    | none =>
      simp only [expire, known]
      exact forgets
    | some own =>
      rw [run_lapses known]
      exact trans (trans (trans waits (next _ _)) (next _ _)) (next _ _)

end Returns

end Node

/-! ## Floors -/

/-- A node, and the hands that are in the middle of something, by number. -/
structure Floor where
  node : Node
  hands : Nat → Option Hand

namespace Floor

def still (n : Node) : Floor := ⟨n, fun _ => none⟩

def set (x : Floor) (i : Nat) (n : Node) (h : Option Hand) : Floor :=
  ⟨n, Function.update x.hands i h⟩

def advance (x : Floor) (i : Nat) (h : Hand) : Floor :=
  x.set i (h.next x.node).1 (h.next x.node).2

/-- One thing that happens: a move; a worker or a thread takes a request up; an execution finds its
message, or has waited in vain; or a hand goes on. -/
inductive Stage (P : Act → Prop) : Floor → Floor → Prop
  | move {x : Floor} {n' : Node} (move : Node.Move P x.node n') : Stage P x ⟨n', x.hands⟩
  | takes {x : Floor} {i : Nat} {s : SessionId} {ses : Session} {job : Job} {pool : WorkerPool Job}
      (idle : x.hands i = none) (found : x.node.session? s = some ses)
      (taken : ses.pool.take = some (.job job, pool)) : Stage P x
        (x.set i (x.node.modify s fun ses => { ses with pool }) (some (.claims s job)))
  | picks {x : Floor} {i : Nat} {s : SessionId} {ses : Session} {m : Message}
      (idle : x.hands i = none) (found : x.node.session? s = some ses) (spawned : m ∈ ses.dials) :
      Stage P x (x.set i (x.node.modify s (·.pickUp m)) (some (.claims s ⟨.invoke, m⟩)))
  | hears {x : Floor} {i : Nat} {call : Call} {own : Context} {m : Message}
      (idle : x.hands i = none) (waits : call ∈ x.node.calls)
      (known : x.node.context? call.session call.context = some own)
      (told : own.slot.message = some m) :
      Stage P x (x.set i (x.node.unheld call) (some (.leaves call own (.ok m))))
  | lapses {x : Floor} {i : Nat} {call : Call} {own : Context} (idle : x.hands i = none)
      (waits : call ∈ x.node.calls)
      (known : x.node.context? call.session call.context = some own) :
      Stage P x (x.set i (x.node.unheld call) (some (.lapses call own)))
  | next {x : Floor} {i : Nat} {h : Hand} (busy : x.hands i = some h) : Stage P x (x.advance i h)

/-- Any number of things that happen, in any order. -/
abbrev Stages (P : Act → Prop) : Floor → Floor → Prop := Relation.ReflTransGen (Stage P)

/-- Moves that come one after the other, with no hand in the middle of anything. -/
theorem stages_of_moves {P : Act → Prop} {n n' : Node} (moves : Node.Moves P n n') :
    Stages P (still n) (still n') := by
  induction moves with
  | refl => exact .refl
  | tail _ move ih => exact ih.tail (.move move)

/-- What holds between a node and what follows each move and each statement holds whatever happens. -/
theorem Stage.relates {P : Act → Prop} {x x' : Floor} {R : Node → Node → Prop}
    (stage : Stage P x x') (moves : ∀ {n n'}, Node.Move P n n' → R n n')
    (aside : ∀ n t {f : Session → Session}, (∀ ses : Session, ses.Aside (f ses)) → R n (n.modify t f))
    (waits : ∀ n call, R n (n.unheld call)) (next : ∀ n h, R n (Hand.next n h).1) :
    R x.node x'.node := by
  cases stage with
  | move move => exact moves move
  | takes idle found taken => exact aside _ _ fun _ => .of_eq rfl rfl
  | picks idle found spawned => exact aside _ _ fun _ => .of_eq rfl rfl
  | hears idle among known told => exact waits _ _
  | lapses idle among known => exact waits _ _
  | next busy => exact next _ _

end Floor

/-! ## What hands leave alone -/

namespace Node

variable {R : Node → Node → Prop} {n : Node}

theorem Frame.relieved (frame : Frame R) (n : Node) (s : SessionId) (job : Job) :
    R n (n.modify s (·.relieved job)) := by
  refine frame.apart n s fun ses => ?_
  unfold Session.relieved
  split
  · exact .of_eq rfl rfl
  · exact .of_eq rfl rfl

/-- The next statement of a hand does nothing but to the cursors of the context that it has a request
in, unless it is that of an execution which returns. -/
theorem Frame.next (frame : Frame R) (h : Hand)
    (turns : ∀ s job r c ctx n', h = .holds s job r c → n.context? s c = some ctx →
      Turning n s c ctx r n' → R n n')
    (closes : ∀ call own, h = .lapses call own →
      R n (n.modifyContext call.session call.context Context.closeCursors))
    (deletes : ∀ call own result, h = .leaves call own result →
      R n (n.deleteContext call.session own.channel own.tx))
    (hears : ∀ label result, h = .returns (.caller label) result →
      R n { n with results := n.results ++ [(label, result)] }) : R n (h.next n).1 := by
  cases h with
  | claims s job =>
    simp only [Hand.next]
    split
    · exact frame.apart n s fun _ => ⟨rfl, rfl, id, id⟩
    · exact frame.relieved ..
  | looks s job =>
    simp only [Hand.next]
    split
    · exact frame.refl n
    · split
      · exact frame.refl n
      · exact frame.refl n
  | holds s job r c =>
    simp only [Hand.next]
    split
    · rename_i ses ctx found known
      have performed : R n (n.perform s ses c ctx job r).2 :=
        frame.perform fun n' turning => turns s job r c ctx n' rfl known turning
      generalize n.perform s ses c ctx job r = p at performed ⊢
      obtain ⟨result | p | _, n'⟩ := p
      · exact performed
      · exact frame.trans performed (frame.apart n' s fun _ => .of_eq rfl rfl)
      · exact frame.trans performed (frame.relieved ..)
    · exact frame.refl n
  | owes s job result => exact frame.trans (frame.answer ..) (frame.relieved ..)
  | lapses call own => exact closes call own rfl
  | leaves call own result => exact deletes call own result rfl
  | returns origin result =>
    refine frame.deliver fun label same => ?_
    subst same
    exact hears label result rfl

end Node

end ContractNode
