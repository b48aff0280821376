import ContractNode.KeyMap
import ContractNode.Cursor.Source

/-!
# The cursors of a transaction

A cursor is read in pages of a bounded size. To know whether there is more after a page, one result
more is read, and kept for the next page.

* `CursorError` : why a cursor cannot be read, and its wording;
* `Batch` : results that were read but are not on a page yet;
* `CursorTable σ` : the open cursors of a transaction over sources `σ`, and those that were closed;
* `CursorTable.openCursor`, `CursorTable.advance` : the first page of a new cursor, and the next
  page of an open one; a cursor that ends or fails is closed and leaves the table;
* `CursorTable.close`, `CursorTable.closeAll`.
-/

namespace ContractNode

inductive CursorError
  /-- No cursor of the transaction has the identifier. -/
  | notFound (id : String)
  /-- The transaction's cursors cannot be reached. -/
  | unavailable
  | ledger (e : LedgerError)
  /-- A result could not be written. -/
  | serialization (e : CodecError)
deriving DecidableEq, Repr

namespace CursorError

def message : CursorError → String
  | .notFound id => "query iterator not found: " ++ id
  | .unavailable => "transaction context unavailable"
  | .ledger e => e.message
  | .serialization e => "unable to serialize query result: " ++ e.message

def causes : CursorError → List String
  | .notFound _ | .unavailable => []
  | .ledger e => [e.message]
  | .serialization e => [e.message]

end CursorError

/-- Results that were read but are not on a page yet. -/
structure Batch where
  results : List Bytes := []
  count : Nat := 0
deriving DecidableEq, Repr

namespace Batch

def add (b : Batch) (r : Bytes) : Batch := ⟨b.results ++ [r], b.count + 1⟩

def cut (b : Batch) : List Bytes × Batch := (b.results, {})

end Batch

/-- The open cursors of a transaction, what was read ahead from each of them, and the cursors that
were open before. -/
structure CursorTable (σ : Type) where
  cursors : KeyMap (Cursor σ) := ∅
  batches : KeyMap Batch := ∅
  retired : List (String × Cursor σ) := []

namespace CursorTable

variable {σ : Type} [Source σ]

instance : Inhabited (CursorTable σ) := ⟨{}⟩

def isOpen (t : CursorTable σ) (id : String) : Bool := t.cursors.contains id

def size (t : CursorTable σ) : Nat := t.cursors.entries.length

/-- Closes a cursor and forgets what was read ahead from it. -/
def close (t : CursorTable σ) (id : String) : CursorTable σ :=
  match t.cursors.get? id with
  | none => { t with batches := t.batches.erase id }
  | some c =>
    { cursors := t.cursors.erase id
      batches := t.batches.erase id
      retired := t.retired ++ [(id, c.close)] }

def closeAll (t : CursorTable σ) : CursorTable σ := t.cursors.keys.foldl close t

/-- What reading a page comes to. -/
inductive Filled
  | failed (e : LedgerError)
  /-- The cursor ended; the results are the last ones. -/
  | ended (results : List Bytes)
  /-- There are more results, of which `ahead` holds the first. -/
  | full (results : List Bytes) (ahead : Batch)

/-- Reads results into a batch: `room` of them, and one more. -/
def fill : Nat → Batch → Cursor σ → Filled × Cursor σ
  | room, batch, c =>
    match c.next with
    | (.error e, c') => (.failed e, c')
    | (.ok none, c') => (.ended batch.cut.1, c')
    | (.ok (some r), c') =>
      match room with
      | 0 => (.full batch.cut.1 (batch.cut.2.add r.encode), c')
      | room + 1 => fill room (batch.add r.encode) c'

/-- The next page, of at most `max` results, of an open cursor. -/
def advance (max : Nat) (t : CursorTable σ) (id : String) :
    Except CursorError Page × CursorTable σ :=
  match t.cursors.get? id with
  | none => (.error (.notFound id), t)
  | some c =>
    let batch := (t.batches.get? id).getD {}
    match fill (max - batch.count) batch c with
    | (.failed e, c') =>
      (.error (.ledger e), { t with cursors := t.cursors.insert id c' }.close id)
    | (.ended results, c') =>
      (.ok ⟨id, false, results⟩, { t with cursors := t.cursors.insert id c' }.close id)
    | (.full results ahead, c') =>
      (.ok ⟨id, true, results⟩,
        { t with cursors := t.cursors.insert id c', batches := t.batches.insert id ahead })

/-- The first page, of at most `max` results, of a new cursor over a source. -/
def openCursor (max : Nat) (t : CursorTable σ) (id : String) (source : σ) :
    Except CursorError Page × CursorTable σ :=
  advance max
    { t with cursors := t.cursors.insert id { source }, batches := t.batches.insert id {} } id

end CursorTable

end ContractNode
