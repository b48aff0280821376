import ContractNode.Cursor.Table
import ContractNode.Ledger.Basic
import ContractNode.Transaction.Slot

/-!
# Transaction contexts

* `Context` : what a session knows about a transaction in flight;
* `contextKey` : what a session finds it under, the channel followed by the transaction id;
* `Context.notify` : hands a message to whoever waits for the transaction, and closes its cursors.
-/

namespace ContractNode

/-- What a session knows about a transaction in flight. -/
structure Context where
  channel : String
  tx : String
  simulator : Option Simulator := none
  historian : Option Historian := none
  signedProposal : Option SignedProposal := none
  proposal : Option Proposal := none
  slot : Slot := {}
  cursors : CursorTable Scan := {}

/-- What the context of a transaction is found under. -/
def contextKey (channel tx : String) : String := channel ++ tx

namespace Context

def key (c : Context) : String := contextKey c.channel c.tx

def closeCursors (c : Context) : Context := { c with cursors := c.cursors.closeAll }

/-- Hands a message to whoever waits for the transaction, unless one was handed over before, and
closes the transaction's cursors. -/
def notify (c : Context) (m : Message) : Context :=
  { c with slot := (c.slot.notify m).2 }.closeCursors

end Context

end ContractNode
