import ContractNode.Message.Basic

/-!
# Response slots

Whoever waits for a transaction to end holds the receiving end of its response slot, which has room
for one message.

* `Receiver` : where the receiving end of a slot is;
* `Slot` : a slot, with `Slot.notify`, `Slot.take`, `Slot.receive` and `Slot.drop`.
-/

namespace ContractNode

/-- Where the receiving end of a slot is. -/
inductive Receiver
  /-- Nobody has taken it yet. -/
  | unclaimed
  /-- Somebody holds it. -/
  | held
  /-- Whoever held it has given it up. -/
  | dropped
deriving DecidableEq, Repr

/-- Room for the message that ends a transaction. -/
structure Slot where
  receiver : Receiver := .unclaimed
  message : Option Message := none
deriving DecidableEq, Repr

namespace Slot

/-- Whether a message would be taken in now. -/
def isFree (s : Slot) : Bool := s.message.isNone && s.receiver != .dropped

/-- Puts a message into the slot; gives `false`, and changes nothing, if there is one already or
nobody can receive it. -/
def notify (s : Slot) (m : Message) : Bool × Slot :=
  if s.isFree then (true, { s with message := some m }) else (false, s)

/-- Hands out the receiving end; gives `false` if it was handed out before. -/
def take (s : Slot) : Bool × Slot :=
  match s.receiver with
  | .unclaimed => (true, { s with receiver := .held })
  | .held | .dropped => (false, s)

def receive (s : Slot) : Option Message × Slot := (s.message, { s with message := none })

def drop (_ : Slot) : Slot := ⟨.dropped, none⟩

theorem notify_fst (s : Slot) (m : Message) : (s.notify m).1 = s.isFree := by
  rw [notify]; split <;> simp_all

theorem message_notify (s : Slot) (m : Message) :
    (s.notify m).2.message = if s.isFree then some m else s.message := by
  rw [notify]; split <;> rfl

theorem receiver_notify (s : Slot) (m : Message) : (s.notify m).2.receiver = s.receiver := by
  rw [notify]; split <;> rfl

end Slot

end ContractNode
