import ContractNode.KeyMap
import ContractNode.Request.Page

/-!
# The data of one namespace

Every contract has a namespace of its own on a channel. It holds public state, any number of
private collections, and the history of the public keys.

* `Space` : the data of a namespace;
* `Space.read`, `Space.write`, `Space.delete` : one key, public or in a collection;
* `Space.entries` : all keys, public or of a collection;
* `Space.changes` : the history of a public key.

A public write or delete adds to the history of its key, a private one does not
(`Space.changes_write`, `Space.changes_delete`); no other key reads differently (`Space.read_write`,
`Space.read_delete`).
-/

namespace ContractNode

/-- A recorded change of a public key: who made it, and the value it left unless it deleted. -/
structure Record where
  tx : String
  value : Option Bytes
deriving DecidableEq, Repr

namespace Record

/-- The second that a clock starts from which ticks once a change. -/
def epoch : Nat := 1000

/-- The change that a record tells of, stamped with its place in the history of the key. -/
def change (place : Nat) (r : Record) : Change where
  tx := r.tx
  value := r.value.getD []
  seconds := Int64.ofNat (epoch + place)
  nanos := Int32.ofNat place
  isDelete := r.value.isNone

end Record

/-- The data of a namespace on a channel. -/
structure Space where
  /-- The values of the public keys. -/
  state : KeyMap Bytes := ∅
  /-- The values of the private keys, by collection. -/
  collections : KeyMap (KeyMap Bytes) := ∅
  /-- What happened to each public key, the oldest first. -/
  history : KeyMap (List Record) := ∅
deriving DecidableEq

namespace Space

/-- The keys and values of the public state or of a collection. -/
def entries (s : Space) : Option String → KeyMap Bytes
  | none => s.state
  | some c => (s.collections.get? c).getD ∅

def changes (s : Space) (key : String) : List Record := (s.history.get? key).getD []

def read (s : Space) (collection : Option String) (key : String) : Option Bytes :=
  (s.entries collection).get? key

def record (s : Space) (key : String) (r : Record) : Space :=
  { s with history := s.history.alter key fun past => past.getD [] ++ [r] }

/-- Replaces the keys and values of the public state or of a collection. -/
def setEntries (s : Space) (collection : Option String) (m : KeyMap Bytes) : Space :=
  match collection with
  | none => { s with state := m }
  | some c => { s with collections := s.collections.insert c m }

/-- Gives a key a value on behalf of a transaction. -/
def write (s : Space) (tx : String) (collection : Option String) (key : String) (v : Bytes) :
    Space :=
  let s' := s.setEntries collection ((s.entries collection).insert key v)
  if collection.isNone then s'.record key ⟨tx, some v⟩ else s'

/-- Takes a key's value away on behalf of a transaction. That there was none makes no difference
to the history. -/
def delete (s : Space) (tx : String) (collection : Option String) (key : String) : Space :=
  let s' := s.setEntries collection ((s.entries collection).erase key)
  if collection.isNone then s'.record key ⟨tx, none⟩ else s'

/-! ## What is read after a change -/

theorem entries_setEntries (s : Space) (c c' : Option String) (m : KeyMap Bytes) :
    (s.setEntries c m).entries c' = if c = c' then m else s.entries c' := by
  cases c <;> cases c' <;> simp [setEntries, entries, KeyMap.get?_insert]
  split <;> simp

theorem entries_record (s : Space) (key : String) (r : Record) (c : Option String) :
    (s.record key r).entries c = s.entries c := by cases c <;> rfl

theorem changes_setEntries (s : Space) (c : Option String) (m : KeyMap Bytes) (key : String) :
    (s.setEntries c m).changes key = s.changes key := by cases c <;> rfl

theorem changes_record (s : Space) (key key' : String) (r : Record) :
    (s.record key r).changes key' = s.changes key' ++ if key = key' then [r] else [] := by
  by_cases h : key = key' <;> simp [record, changes, KeyMap.get?_alter, h]

theorem entries_write (s : Space) (tx : String) (c c' : Option String) (key : String) (v : Bytes) :
    (s.write tx c key v).entries c' =
      if c = c' then (s.entries c).insert key v else s.entries c' := by
  cases c <;> simp [write, entries_record, entries_setEntries]

theorem entries_delete (s : Space) (tx : String) (c c' : Option String) (key : String) :
    (s.delete tx c key).entries c' =
      if c = c' then (s.entries c).erase key else s.entries c' := by
  cases c <;> simp [delete, entries_record, entries_setEntries]

theorem read_write (s : Space) (tx : String) (c c' : Option String) (key key' : String)
    (v : Bytes) :
    (s.write tx c key v).read c' key' =
      if c = c' ∧ key = key' then some v else s.read c' key' := by
  by_cases hc : c = c' <;> simp [read, entries_write, hc, KeyMap.get?_insert]

theorem read_delete (s : Space) (tx : String) (c c' : Option String) (key key' : String) :
    (s.delete tx c key).read c' key' =
      if c = c' ∧ key = key' then none else s.read c' key' := by
  by_cases hc : c = c' <;> simp [read, entries_delete, hc, KeyMap.get?_erase]

theorem changes_write (s : Space) (tx : String) (c : Option String) (key key' : String)
    (v : Bytes) :
    (s.write tx c key v).changes key' =
      s.changes key' ++ if c = none ∧ key = key' then [⟨tx, some v⟩] else [] := by
  cases c <;> simp [write, changes_record, changes_setEntries]

theorem changes_delete (s : Space) (tx : String) (c : Option String) (key key' : String) :
    (s.delete tx c key).changes key' =
      s.changes key' ++ if c = none ∧ key = key' then [⟨tx, none⟩] else [] := by
  cases c <;> simp [delete, changes_record, changes_setEntries]

end Space

end ContractNode
