import ContractNode.Ledger.Error
import ContractNode.Request.Page

/-!
# What cursors read from

* `Source σ` : results that are read one at a time and closed in the end, where either may fail;
* `Scan` : a source over results that are known when it is opened;
* `Cursor σ` : a source with a count of its reads and closes.
-/

namespace ContractNode

/-- Results that are read one at a time, and closed in the end. -/
class Source (σ : Type) where
  /-- The next result, or none at the end. -/
  next : σ → Except LedgerError (Option Found) × σ
  /-- Gives up what the source holds. -/
  close : σ → Except LedgerError Unit × σ

/-- A source over results that are known when it is opened. Any of them may be a failure in the
stead of a result. -/
structure Scan where
  /-- What the next reads give, one each. -/
  pending : List (Except LedgerError Found)
  /-- How closing fails, if it does. -/
  closeFault : Option LedgerError := none
  closed : Bool := false

namespace Scan

/-- A scan over results, none of which fails. -/
def ofResults (results : List Found) : Scan := { pending := results.map .ok }

/-- The next result of a scan. A closed one has none to give. -/
def next (s : Scan) : Except LedgerError (Option Found) × Scan :=
  if s.closed then (.error .cursorClosed, s)
  else match s.pending with
    | [] => (.ok none, s)
    | .ok r :: rest => (.ok (some r), { s with pending := rest })
    | .error e :: rest => (.error e, { s with pending := rest })

/-- Closes a scan. One that fails to close is left as it was. -/
def close (s : Scan) : Except LedgerError Unit × Scan :=
  match s.closeFault with
  | some e => (.error e, s)
  | none => (.ok (), { s with pending := [], closed := true })

instance : Source Scan := ⟨next, close⟩

end Scan

/-- A source with a count of its reads and closes. -/
structure Cursor (σ : Type) where
  source : σ
  reads : Nat := 0
  closes : Nat := 0

namespace Cursor

variable {σ : Type} [Source σ]

/-- The next result, or none at the end. -/
def next (c : Cursor σ) : Except LedgerError (Option Found) × Cursor σ :=
  match Source.next c.source with
  | (r, s) => (r, { c with source := s, reads := c.reads + 1 })

/-- Closes a cursor. How that went makes no difference to anybody. -/
def close (c : Cursor σ) : Cursor σ :=
  { c with source := (Source.close c.source).2, closes := c.closes + 1 }

end Cursor

end ContractNode
