import ContractNode.Ledger.Error
import ContractNode.Ledger.Space

/-!
# The ledger

A ledger holds the data of any number of channels. It is written through at once: what a
transaction writes, every other one reads.

* `Ledger` : channels and, on each of them, namespaces;
* `Simulator`, `Historian` : the rights to read and write a channel for a transaction, and to read
  the history on a channel (`Ledger.simulator`, `Ledger.historian`);
* `Ledger.get`, `Ledger.set`, `Ledger.delete` : one key;
* `Ledger.range`, `Ledger.query` : the entries of a range of keys, and of the keys that begin with
  a query;
* `Ledger.history` : the changes of a public key;
* `Ledger.state` : a public value outside of any transaction.

Each is about one namespace, and about its public state unless a collection is given.
-/

namespace ContractNode

/-- The data of any number of channels, each divided into namespaces. -/
structure Ledger where
  channels : KeyMap (KeyMap Space) := ∅
deriving DecidableEq

/-- The right to read and write a channel for a transaction. -/
structure Simulator where
  channel : String
  tx : String
deriving DecidableEq, Repr

/-- The right to read the history on a channel. -/
structure Historian where
  channel : String
deriving DecidableEq, Repr

namespace Ledger

def hasChannel (l : Ledger) (channel : String) : Bool := l.channels.contains channel

/-- Adds a channel, without data, unless it exists. -/
def createChannel (l : Ledger) (channel : String) : Ledger :=
  if l.hasChannel channel then l else ⟨l.channels.insert channel ∅⟩

/-- The data of a namespace on a channel; none yet where nothing was written. -/
def space (l : Ledger) (channel name : String) : Space :=
  (((l.channels.get? channel).getD ∅).get? name).getD {}

def updateSpace (l : Ledger) (channel name : String) (f : Space → Space) : Ledger :=
  ⟨l.channels.alter channel fun spaces =>
    (spaces.getD ∅).alter name fun s => f (s.getD {})⟩

/-- What is done on a channel, provided that it exists. -/
def onChannel {α : Type} (l : Ledger) (channel : String) (x : α) : Except LedgerError α :=
  if l.hasChannel channel then .ok x else .error (.notFound channel)

/-- The right to read and write a channel for a transaction. -/
def simulator (l : Ledger) (channel tx : String) : Except LedgerError Simulator :=
  l.onChannel channel ⟨channel, tx⟩

def historian (l : Ledger) (channel : String) : Except LedgerError Historian :=
  l.onChannel channel ⟨channel⟩

/-- The value of a public key outside of any transaction. -/
def state (l : Ledger) (channel name key : String) : Except LedgerError (Option Bytes) :=
  l.onChannel channel ((l.space channel name).read none key)

def get (l : Ledger) (sim : Simulator) (name : String) (collection : Option String)
    (key : String) : Except LedgerError (Option Bytes) :=
  l.onChannel sim.channel ((l.space sim.channel name).read collection key)

/-- Gives a key a value. The empty text is no key. -/
def set (l : Ledger) (sim : Simulator) (name : String) (collection : Option String)
    (key : String) (v : Bytes) : Except LedgerError Ledger :=
  if key = "" then .error (.invalidQuery "empty key not allowed")
  else l.onChannel sim.channel
    (l.updateSpace sim.channel name fun s => s.write sim.tx collection key v)

def delete (l : Ledger) (sim : Simulator) (name : String) (collection : Option String)
    (key : String) : Except LedgerError Ledger :=
  l.onChannel sim.channel
    (l.updateSpace sim.channel name fun s => s.delete sim.tx collection key)

/-- The entries of a namespace as results. -/
def found (name : String) (entries : List (String × Bytes)) : List Found :=
  entries.map fun e => .entry ⟨name, e.1, e.2⟩

/-- The entries from a first key up to, but not including, a last one; no last one where it is
empty. -/
def range (l : Ledger) (sim : Simulator) (name : String) (collection : Option String)
    (first last : String) : Except LedgerError (List Found) :=
  l.onChannel sim.channel
    (found name (((l.space sim.channel name).entries collection).range first last))

def query (l : Ledger) (sim : Simulator) (name : String) (collection : Option String)
    (q : String) : Except LedgerError (List Found) :=
  l.onChannel sim.channel
    (found name (((l.space sim.channel name).entries collection).beginningWith q))

def history (l : Ledger) (h : Historian) (name key : String) : Except LedgerError (List Found) :=
  l.onChannel h.channel
    (((l.space h.channel name).changes key).mapIdx fun i r => .change (r.change i))

/-! ## What there is after a change -/

theorem hasChannel_updateSpace (l : Ledger) (channel name : String) (f : Space → Space)
    (channel' : String) :
    (l.updateSpace channel name f).hasChannel channel' =
      (decide (channel = channel') || l.hasChannel channel') := by
  simp [hasChannel, updateSpace, KeyMap.alter]

theorem space_updateSpace (l : Ledger) (channel name : String) (f : Space → Space)
    (channel' name' : String) :
    (l.updateSpace channel name f).space channel' name' =
      if channel = channel' ∧ name = name' then f (l.space channel name)
      else l.space channel' name' := by
  by_cases hc : channel = channel'
  · subst hc
    by_cases hn : name = name'
    · subst hn
      simp [space, updateSpace, KeyMap.get?_alter]
    · simp [space, updateSpace, KeyMap.get?_alter, hn]
  · simp [space, updateSpace, KeyMap.get?_alter, hc]

theorem hasChannel_createChannel (l : Ledger) (channel channel' : String) :
    (l.createChannel channel).hasChannel channel' =
      (decide (channel = channel') || l.hasChannel channel') := by
  rw [createChannel]
  split
  · rename_i h
    by_cases e : channel = channel'
    · subst e; simp [h]
    · simp [e]
  · simp [hasChannel]

theorem space_createChannel (l : Ledger) (channel channel' name : String) :
    (l.createChannel channel).space channel' name = l.space channel' name := by
  rw [createChannel]
  split
  · rfl
  · rename_i h
    by_cases e : channel = channel'
    · subst e
      have none : l.channels.get? channel = none := by
        simpa [hasChannel, KeyMap.contains] using h
      simp [space, none]
    · simp [space, KeyMap.get?_insert, e]

end Ledger

end ContractNode
