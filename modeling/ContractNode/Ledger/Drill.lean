import ContractNode.Cursor.Source
import ContractNode.Ledger.Basic

/-!
# Drills

To see how sessions bear failures of a ledger, a node can run a drill, in which marked keys fail on
purpose. Without a drill every key is an ordinary one.

* `Drill.fails`, `Drill.guard` : an action on a key fails if the key begins with `!fail`;
* `Drill.cursor` : a cursor over the results from a start; a start of `!iter` and a number has the
  cursor start at the empty key instead, and fail after that many reads, and on closing.
-/

namespace ContractNode

/-- Whether marked keys fail on purpose. -/
structure Drill where
  isOn : Bool := false
deriving DecidableEq, Repr

namespace Drill

def failMark : String := "!fail"

def cursorMark : String := "!iter"

def fails (d : Drill) (key : String) : Bool := d.isOn && Text.startsWith key failMark

/-- An action on a key, which fails if the key is marked. -/
def guard {α : Type} (d : Drill) (action key : String) (x : Except LedgerError α) :
    Except LedgerError α :=
  if d.fails key then .error (.storage ("injected " ++ action)) else x

/-- After how many reads a cursor from a start fails, if the start is marked. -/
def readsBeforeFault? (d : Drill) (start : String) : Option Nat :=
  let digits := start.toList.drop cursorMark.length
  if d.isOn && Text.startsWith start cursorMark && digits.all Char.isDigit then
    (String.ofList digits).toNat?
  else none

/-- A cursor over what `results` finds from a start. -/
def cursor (d : Drill) (action start : String)
    (results : String → Except LedgerError (List Found)) : Except LedgerError Scan :=
  d.guard action start <|
    match d.readsBeforeFault? start with
    | none => (results start).map Scan.ofResults
    | some n => (results "").map fun found =>
      let fault := LedgerError.storage "injected iterator"
      { pending := (found.take n).map .ok ++ (if n ≤ found.length then [.error fault] else [])
        closeFault := some fault }

end Drill

end ContractNode
