import ContractNode.Wire.Codec

/-!
# Results of scans

* `Entry` : a key with its value, as ranges and queries find it;
* `Change` : one change of a key, as its history lists it;
* `Found` : either of them, with its bytes;
* `Page` : some results of a cursor, and whether there are more.
-/

namespace ContractNode

structure Entry where
  space : String := ""
  key : String := ""
  value : Bytes := []
deriving DecidableEq, Repr

namespace Entry

def layout : Layout Entry where
  blank := {}
  fields := [
    .plain 1 .text "" (·.space) fun v e => { e with space := v },
    .plain 2 .text "" (·.key) fun v e => { e with key := v },
    .plain 3 .bytes [] (·.value) fun v e => { e with value := v }]

def codec : Codec Entry Entry := .plain "KV" layout

end Entry

/-- One change of a key: the transaction that made it, the value it left, and when. -/
structure Change where
  tx : String := ""
  value : Bytes := []
  seconds : Int64 := 0
  nanos : Int32 := 0
  isDelete : Bool := false
deriving DecidableEq, Repr

namespace Change

def layout : Layout Change where
  blank := {}
  fields := [
    .plain 1 .text "" (·.tx) fun v c => { c with tx := v },
    .plain 2 .bytes [] (·.value) fun v c => { c with value := v },
    .plain 3 .int64 0 (·.seconds) fun v c => { c with seconds := v },
    .plain 4 .int32 0 (·.nanos) fun v c => { c with nanos := v },
    .plain 5 .bool false (·.isDelete) fun v c => { c with isDelete := v }]

def codec : Codec Change Change := .plain "KeyModification" layout

end Change

/-- What a cursor finds. -/
inductive Found
  | entry (e : Entry)
  | change (c : Change)
deriving DecidableEq, Repr

def Found.encode : Found → Bytes
  | .entry e => Entry.codec.encode e
  | .change c => Change.codec.encode c

/-- Some results of a cursor. While `hasMore` the cursor stays open and the next page can be asked
for under `id`. -/
structure Page where
  id : String := ""
  hasMore : Bool := false
  results : List Bytes := []
deriving DecidableEq, Repr

namespace Page

/-- A result on a page: a message around the bytes of the result. -/
def resultLayout : Layout Bytes := ⟨[], [.plain 1 .bytes [] (fun v => v) fun v _ => v]⟩

def layout : Layout Page where
  blank := {}
  fields := [
    .repeated 1 (.message resultLayout) (·.results)
      fun v p => { p with results := p.results ++ [v] },
    .plain 2 .bool false (·.hasMore) fun v p => { p with hasMore := v },
    .plain 3 .text "" (·.id) fun v p => { p with id := v }]

def codec : Codec Page Page := .plain "QueryResponse" layout

end Page

end ContractNode
