import ContractNode.Transaction.Context

/-!
# The transactions of a session

* `Transactions` : every context a session has had, by number, those of them that are registered,
  and the markers of the requests under way;
* `Transactions.create`, `Transactions.find?`, `Transactions.delete` : contexts by channel and
  transaction id;
* `Transactions.mark`, `Transactions.unmark` : a transaction may have one request under way at a
  time, which holds its marker.
-/

namespace ContractNode

/-- The contexts and request markers of a session. A context keeps its number after it has left
the index, since whoever was waiting on it still does. -/
structure Transactions where
  /-- Every context so far; its place is its number. -/
  contexts : List Context := []
  /-- The numbers of the registered contexts, by key. -/
  index : KeyMap Nat := ∅
  /-- The keys of the transactions with a request under way. -/
  markers : List String := []

namespace Transactions

instance : Inhabited Transactions := ⟨{}⟩

def find? (t : Transactions) (channel tx : String) : Option Nat :=
  t.index.get? (contextKey channel tx)

def context? (t : Transactions) (n : Nat) : Option Context := t.contexts[n]?

def get? (t : Transactions) (channel tx : String) : Option Context :=
  (t.find? channel tx).bind t.context?

def exists? (t : Transactions) (channel tx : String) : Bool := (t.find? channel tx).isSome

def isRegistered (t : Transactions) (n : Nat) : Bool := t.index.entries.any fun e => e.2 == n

/-- Registers a context, unless the transaction has one; gives the number of the new one. -/
def create (t : Transactions) (c : Context) : Option (Nat × Transactions) :=
  if t.index.contains c.key then none
  else
    let n := t.contexts.length
    some (n, { t with contexts := t.contexts ++ [c], index := t.index.insert c.key n })

def modify (t : Transactions) (n : Nat) (f : Context → Context) : Transactions :=
  { t with contexts := t.contexts.modify n f }

def delete (t : Transactions) (channel tx : String) : Transactions :=
  { t with index := t.index.erase (contextKey channel tx) }

/-- The numbers of the registered contexts, in ascending order of their keys. -/
def registered (t : Transactions) : List Nat := t.index.entries.map Prod.snd

/-- Claims the marker of a transaction; gives `false` if it is claimed already. -/
def mark (t : Transactions) (channel tx : String) : Bool × Transactions :=
  if t.markers.contains (contextKey channel tx) then (false, t)
  else (true, { t with markers := contextKey channel tx :: t.markers })

def unmark (t : Transactions) (channel tx : String) : Transactions :=
  { t with markers := t.markers.filter fun k => k != contextKey channel tx }

end Transactions

/-- The context of a transaction with the rights that a ledger gives on its channel; without them
where the channel has no ledger. -/
def Context.onLedger (l : Ledger) (channel tx : String)
    (signedProposal : Option SignedProposal) (proposal : Option Proposal) : Context where
  channel := channel
  tx := tx
  simulator := (l.simulator channel tx).toOption
  historian := (l.historian channel).toOption
  signedProposal := signedProposal
  proposal := proposal

end ContractNode
