/-!
# The settings of a session

* `SessionConfig` : the settings;
* `ConfigDraft.build` : the settings that somebody asks for, with defaults for the rest;
* `ConfigError` : why settings are refused, and its wording.
-/

namespace ContractNode

structure SessionConfig where
  /-- How many results a page may hold. -/
  maxBatch : Nat := 100
  /-- How many ledger requests may run at a time. -/
  workers : Nat := 4
  /-- How many milliseconds an execution may take; without it, any number. -/
  timeout : Option Nat := none
deriving DecidableEq, Repr

inductive ConfigError
  | invalidValue (detail : String)
deriving DecidableEq, Repr

def ConfigError.message : ConfigError → String
  | .invalidValue detail => "InvalidValue: " ++ detail

/-- The settings that somebody asks for. -/
structure ConfigDraft where
  maxBatch : Option Nat := none
  workers : Option Nat := none
  timeout : Option Nat := none
deriving DecidableEq, Repr

/-- The settings of a draft. A session needs room for a result on a page, and a worker. -/
def ConfigDraft.build (d : ConfigDraft) : Except ConfigError SessionConfig :=
  let defaults : SessionConfig := {}
  let maxBatch := d.maxBatch.getD defaults.maxBatch
  let workers := d.workers.getD defaults.workers
  if maxBatch = 0 then .error (.invalidValue "max_result_batch_size must be greater than 0")
  else if workers = 0 then .error (.invalidValue "request_workers must be greater than 0")
  else .ok { maxBatch, workers, timeout := d.timeout }

end ContractNode
