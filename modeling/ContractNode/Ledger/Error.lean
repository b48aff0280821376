/-!
# Failures of the ledger

* `LedgerError` : why a ledger did not do as asked, and its wording.
-/

namespace ContractNode

/-- Why a ledger did not do as asked. -/
inductive LedgerError
  /-- The channel has no ledger. -/
  | notFound (channel : String)
  /-- The request makes no sense. -/
  | invalidQuery (detail : String)
  | cursorClosed
  /-- The storage below failed. -/
  | storage (detail : String)
deriving DecidableEq, Repr

def LedgerError.message : LedgerError → String
  | .notFound channel => "No ledger found for channel " ++ channel
  | .invalidQuery detail => "Invalid query: " ++ detail
  | .cursorClosed => "Results iterator is closed"
  | .storage detail => "Storage Error: " ++ detail

end ContractNode
