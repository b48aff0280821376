import ContractNode.Contract.Identity
import ContractNode.KeyMap
import ContractNode.Session.Error

/-!
# The directory of a node

* `Directory` : the sessions of a node, by the keys under which their contracts registered;
* `Directory.register`, `Directory.deregister`;
* `Directory.resolve` : the session that serves a contract.
-/

namespace ContractNode

/-- A session of a node, by number. -/
abbrev SessionId := Nat

/-- The sessions under which contracts are registered, and the contracts that belong to the node
itself and need no launch. -/
structure Directory where
  sessions : KeyMap SessionId := ∅
  system : List String := []
deriving DecidableEq

namespace Directory

def get? (d : Directory) (key : String) : Option SessionId := d.sessions.get? key

def isRegistered (d : Directory) (key : String) : Bool := d.sessions.contains key

/-- Registers a session under a key that no session holds. -/
def register (d : Directory) (key : String) (s : SessionId) : Except RegistrationError Directory :=
  if d.isRegistered key then .error (.duplicate key)
  else .ok { d with sessions := d.sessions.insert key s }

/-- Takes a key out, whoever holds it. -/
def deregister (d : Directory) (key : String) : Directory :=
  { d with sessions := d.sessions.erase key }

/-- The sessions registered under a name with some version. -/
def versions (d : Directory) (name : String) : List SessionId :=
  (d.sessions.entries.filter fun e => Text.startsWith e.1 (name ++ ":")).map Prod.snd

/-- The session that serves a target: the one under its key or, where the target has no version,
the only one under its name with some version. -/
def resolve (d : Directory) (target : ContractInstance) : Except LaunchError SessionId :=
  match d.get? target.key with
  | some s => .ok s
  | none =>
    match (if target.version = "" then d.versions target.name else []) with
    | [s] => .ok s
    | [] => .error (.launchFailed ("contract " ++ target.key ++ " is not running"))
    | _ :: _ :: _ =>
      .error (.launchFailed ("several versions of contract " ++ target.name ++ " are running"))

theorem get?_register {d d' : Directory} {key : String} {s : SessionId}
    (h : d.register key s = .ok d') (key' : String) :
    d'.get? key' = if key = key' then some s else d.get? key' := by
  rw [register] at h
  split at h
  · cases h
  · cases h
    exact KeyMap.get?_insert ..

/-- Only a key that is free can be taken. -/
theorem get?_of_register {d d' : Directory} {key : String} {s : SessionId}
    (h : d.register key s = .ok d') : d.get? key = none := by
  rw [register] at h
  split at h
  · cases h
  · rename_i absent
    exact KeyMap.contains_eq_false_iff.1 (Bool.eq_false_iff.2 absent)

theorem get?_deregister (d : Directory) (key key' : String) :
    (d.deregister key).get? key' = if key = key' then none else d.get? key' :=
  KeyMap.get?_erase ..

end Directory

end ContractNode
