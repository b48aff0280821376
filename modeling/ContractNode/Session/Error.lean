import ContractNode.Cursor.Table
import ContractNode.Stream.Pair

/-!
# Failures of a session

* `RegistrationError`, `AccessError`, `LaunchError` : failures of what a session relies on;
* `SessionError` : why a session did not do as asked;
* `AssemblyError` : why a session could not be put together.

Each has its wording, `message`; one that wraps others lists their wordings as its `causes`.
-/

namespace ContractNode

inductive RegistrationError
  | duplicate (key : String)
  | unavailable
deriving DecidableEq, Repr

def RegistrationError.message : RegistrationError → String
  | .duplicate key => "duplicate contract name: " ++ key
  | .unavailable => "handler registry unavailable"

inductive AccessError
  | denied (detail : String)
deriving DecidableEq, Repr

def AccessError.message : AccessError → String
  | .denied detail => "access denied: " ++ detail

inductive LaunchError
  | launchFailed (detail : String)
  | executionFailed (detail : String)
deriving DecidableEq, Repr

def LaunchError.message : LaunchError → String
  | .launchFailed detail => "failed to launch invoked contract: " ++ detail
  | .executionFailed detail => "failed to execute invoked contract: " ++ detail

inductive SessionError
  /-- A payload could not be read, or a result not be written. -/
  | codec (e : CodecError)
  /-- The transaction of a request has no context. -/
  | missingContext (channel tx : String)
  /-- The context has no right to read and write its channel. -/
  | missingSimulator (channel tx : String)
  /-- The context has no right to read the history on its channel. -/
  | missingHistorian (channel tx : String)
  /-- The channel of a called contract has no ledger. -/
  | ledgerNotFound (channel : String)
  | ledger (e : LedgerError)
  | cursor (e : CursorError)
  | access (e : AccessError)
  | launch (e : LaunchError)
  | registration (e : RegistrationError)
  | notRegistered
  | duplicateTransaction (tx : String)
  /-- There is a proposal but no signed proposal. -/
  | missingSignedProposal
  | draft (e : DraftError)
  | timeout (tx : String)
  | stream (e : StreamError)
  | sessionClosed
  | alreadyRunning
  /-- A part of the session could not be started. -/
  | notStarted (detail : String)
deriving DecidableEq, Repr

namespace SessionError

def message : SessionError → String
  | .codec e => e.message
  | .missingContext channel tx =>
    "no transaction context for channel " ++ channel ++ " and txid " ++ tx
  | .missingSimulator channel tx =>
    "no ledger context for channel " ++ channel ++ " and txid " ++ tx
  | .missingHistorian channel tx =>
    "no history query executor for channel " ++ channel ++ " and txid " ++ tx
  | .ledgerNotFound channel => "Failed to find ledger for called channel " ++ channel
  | .ledger e => e.message
  | .cursor e => e.message
  | .access e => e.message
  | .launch e => e.message
  | .registration e => e.message
  | .notRegistered => "no contract registered on the session"
  | .duplicateTransaction tx => "txid " ++ tx ++ " exists"
  | .missingSignedProposal => "failed getting proposal context. Signed proposal is nil"
  | .draft e => e.message
  | .timeout tx => "timeout expired while executing transaction " ++ tx
  | .stream e => e.message
  | .sessionClosed => "contract session closed"
  | .alreadyRunning => "session is already running"
  | .notStarted detail => "unable to start thread: " ++ detail

/-- The wordings of the failures below, the nearest first. -/
def causes : SessionError → List String
  | .codec e => [e.message]
  | .ledger e => [e.message]
  | .cursor e => e.message :: e.causes
  | .access e => [e.message]
  | .launch e => [e.message]
  | .registration e => [e.message]
  | .draft e => [e.message]
  | .stream e => e.message :: e.causes
  | _ => []

end SessionError

/-- Why a session could not be put together. -/
inductive AssemblyError
  | missingField (part : String)
  | notStarted (detail : String)
deriving DecidableEq, Repr

def AssemblyError.message : AssemblyError → String
  | .missingField part => "MissingField: " ++ part
  | .notStarted detail => "unable to start workers: " ++ detail

end ContractNode
