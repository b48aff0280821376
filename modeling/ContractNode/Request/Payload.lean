import ContractNode.Wire.Codec

/-!
# Payloads of ledger requests

What a contract sends to read and write the ledger. A request that names a collection is about
private data, any other one about public state; on the wire an empty collection is none.

* `KeyRef` : a key to read or delete (`KeyRef.getCodec`, `KeyRef.deleteCodec`);
* `KeyWrite` : a key and its new value;
* `KeyRange`, `KeyQuery` : the keys of a range, and those that a query selects;
* `KeyHistory` : a key whose changes are asked for;
* `CursorRef` : a cursor to read on or to close (`CursorRef.nextCodec`, `CursorRef.closeCodec`).
-/

namespace ContractNode

/-- A collection as it is written: none as the empty text. -/
def collectionText (c : Option String) : String := c.getD ""

/-- A collection as it is read: the empty text is none. -/
def collectionOfText (s : String) : Option String := if s = "" then none else some s

def Field.collection {α : Type} (number : Nat) (get : α → Option String)
    (set : Option String → α → α) : Field α :=
  .plain number .text "" (fun a => collectionText (get a)) fun v => set (collectionOfText v)

/-- A key of the public state or of a collection. -/
structure KeyRef where
  key : String := ""
  collection : Option String := none
deriving DecidableEq, Repr

namespace KeyRef

def layout : Layout KeyRef where
  blank := {}
  fields := [
    .plain 1 .text "" (·.key) fun v r => { r with key := v },
    .collection 2 (·.collection) fun v r => { r with collection := v }]

def getCodec : Codec KeyRef KeyRef := .plain "GetState" layout

def deleteCodec : Codec KeyRef KeyRef := .plain "DelState" layout

end KeyRef

structure KeyWrite where
  key : String := ""
  value : Bytes := []
  collection : Option String := none
deriving DecidableEq, Repr

namespace KeyWrite

def layout : Layout KeyWrite where
  blank := {}
  fields := [
    .plain 1 .text "" (·.key) fun v r => { r with key := v },
    .plain 2 .bytes [] (·.value) fun v r => { r with value := v },
    .collection 3 (·.collection) fun v r => { r with collection := v }]

def codec : Codec KeyWrite KeyWrite := .plain "PutState" layout

end KeyWrite

/-- The keys from a first one up to, but not including, a last one; no last one where it is
empty. -/
structure KeyRange where
  first : String := ""
  last : String := ""
  collection : Option String := none
deriving DecidableEq, Repr

namespace KeyRange

def layout : Layout KeyRange where
  blank := {}
  fields := [
    .plain 1 .text "" (·.first) fun v r => { r with first := v },
    .plain 2 .text "" (·.last) fun v r => { r with last := v },
    .collection 3 (·.collection) fun v r => { r with collection := v }]

def codec : Codec KeyRange KeyRange := .plain "GetStateByRange" layout

end KeyRange

structure KeyQuery where
  query : String := ""
  collection : Option String := none
deriving DecidableEq, Repr

namespace KeyQuery

def layout : Layout KeyQuery where
  blank := {}
  fields := [
    .plain 1 .text "" (·.query) fun v r => { r with query := v },
    .collection 2 (·.collection) fun v r => { r with collection := v }]

def codec : Codec KeyQuery KeyQuery := .plain "GetQueryResult" layout

end KeyQuery

/-- A key whose changes are asked for. -/
structure KeyHistory where
  key : String := ""
deriving DecidableEq, Repr

def KeyHistory.codec : Codec KeyHistory KeyHistory :=
  .plain "GetHistoryForKey" ⟨{}, [.plain 1 .text "" (·.key) fun v r => { r with key := v }]⟩

/-- A cursor that an earlier request opened. -/
structure CursorRef where
  id : String := ""
deriving DecidableEq, Repr

namespace CursorRef

def layout : Layout CursorRef :=
  ⟨{}, [.plain 1 .text "" (·.id) fun v r => { r with id := v }]⟩

def nextCodec : Codec CursorRef CursorRef := .plain "QueryStateNext" layout

def closeCodec : Codec CursorRef CursorRef := .plain "QueryStateClose" layout

end CursorRef

end ContractNode
