import ContractNode.Lifecycle.Basic

/-!
# The lifecycle as a machine with hooks

Whoever owns a lifecycle attaches hooks to it, which act on a state of the owner's and may fail.
Raising an event runs the hook before it, changes the phase, runs the hook of a phase that is newly
entered, and then the hook after the event; the first hook that fails ends this.

* `LifecycleError` : why an event did not run to its end, and its wording;
* `Hooks σ μ` : the hooks over a state `σ`, which are given the message `μ` of an event;
* `Hooks.raise`, `Hooks.terminate` : raising an event, and ending the lifecycle at once.
-/

namespace ContractNode

/-- Why an event did not run to its end. -/
inductive LifecycleError
  /-- The event is illegal in the phase; nothing ran. -/
  | invalidEvent (event : Event) (phase : Phase)
  /-- The hook before the event refused it; the phase is as it was. -/
  | cancelled (event : Event) (reason : String)
  /-- A hook failed after the phase had changed. -/
  | hookFailed (reason : String)
  /-- An earlier hook never returned. -/
  | poisoned
deriving DecidableEq, Repr

namespace LifecycleError

def message : LifecycleError → String
  | .invalidEvent event phase =>
    "event " ++ event.name ++ " inappropriate in current state " ++ phase.name
  | .cancelled event reason => "transition on " ++ event.name ++ " cancelled: " ++ reason
  | .hookFailed reason => "state machine hook failed: " ++ reason
  | .poisoned => "state machine lock poisoned"

def isExpected : LifecycleError → Bool
  | .invalidEvent _ _ | .cancelled _ _ => true
  | .hookFailed _ | .poisoned => false

end LifecycleError

/-- A hook: given the phase it runs in and a message, it acts on the state, and says why if it
fails. -/
abbrev Hook (σ μ : Type) := Phase → μ → σ → Except String Unit × σ

/-- The hooks of a lifecycle; a place without a hook holds none. -/
structure Hooks (σ μ : Type) where
  before : Event → Option (Hook σ μ)
  enter : Phase → Option (Hook σ μ)
  after : Event → Option (Hook σ μ)

namespace Hooks

variable {σ μ : Type}

def run (hook : Option (Hook σ μ)) (phase : Phase) (m : μ) (s : σ) : Except String Unit × σ :=
  match hook with
  | none => (.ok (), s)
  | some h => h phase m s

def runEnter (hooks : Hooks σ μ) (phase : Phase) (m : μ) (s : σ) :
    Except LifecycleError Unit × σ :=
  match run (hooks.enter phase) phase m s with
  | (.error reason, s') => (.error (.hookFailed reason), s')
  | (.ok (), s') => (.ok (), s')

def runAfter (hooks : Hooks σ μ) (event : Event) (phase : Phase) (m : μ) (s : σ) :
    Except LifecycleError Unit × σ :=
  match run (hooks.after event) phase m s with
  | (.error reason, s') => (.error (.hookFailed reason), s')
  | (.ok (), s') => (.ok (), s')

theorem runEnter_snd (hooks : Hooks σ μ) (phase : Phase) (m : μ) (a : σ) :
    (hooks.runEnter phase m a).2 = (run (hooks.enter phase) phase m a).2 := by
  rw [runEnter]; split <;> simp_all

theorem runAfter_snd (hooks : Hooks σ μ) (event : Event) (phase : Phase) (m : μ)
    (a : σ) : (hooks.runAfter event phase m a).2 = (run (hooks.after event) phase m a).2 := by
  rw [runAfter]; split <;> simp_all

/-- Raises an event in a phase: the outcome, the phase it leaves, and the state. -/
def raise (hooks : Hooks σ μ) (event : Event) (m : μ) (phase : Phase) (s : σ) :
    Except LifecycleError Unit × Phase × σ :=
  match phase.next? event with
  | none => (.error (.invalidEvent event phase), phase, s)
  | some target =>
    match run (hooks.before event) phase m s with
    | (.error reason, s₁) => (.error (.cancelled event reason), phase, s₁)
    | (.ok (), s₁) =>
      match (if phase = target then (.ok (), s₁) else hooks.runEnter target m s₁) with
      | (.error e, s₂) => (.error e, target, s₂)
      | (.ok (), s₂) =>
        match hooks.runAfter event target m s₂ with
        | (outcome, s₃) => (outcome, target, s₃)

/-- Ends the lifecycle at once: the outcome, with `false` where it had ended before, the phase and
the state. -/
def terminate (hooks : Hooks σ μ) (m : μ) (phase : Phase) (s : σ) :
    Except LifecycleError Bool × Phase × σ :=
  if phase = .ended then (.ok false, phase, s)
  else
    match hooks.runEnter .ended m s with
    | (.error e, s') => (.error e, .ended, s')
    | (.ok (), s') => (.ok true, .ended, s')

end Hooks

end ContractNode
