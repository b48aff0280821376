import ContractNode.Lifecycle.Machine

/-!
# A lifecycle, hook by hook

Hooks may do anything to the state of their owner and may fail whenever they are run. What a
lifecycle makes of that:

* `Hooks.Place`, `Hooks.held` : where a hook may be held;
* `Hooks.Ran`, `Hooks.noted` : a hook that was run, and hooks that keep a log of that, without any
  difference to what they do (`run_noted`);
* `Hooks.Turn`, `Hooks.turns` : one thing asked of a lifecycle with all that came of it, and a lifecycle
  of them;
* `Hooks.Runs` : hooks that are run place after place, up to the first one that fails;
* `Hooks.Lawful` : the law of a turn;
* `orderly_of_turns` : whatever is asked of a lifecycle, its turns obey the law, and it goes
  forward only, through the hook of each phase once.
-/

namespace ContractNode

namespace Phase

theorem rank_le_ended (p : Phase) : p.rank ≤ Phase.ended.rank := by cases p <;> decide

theorem eq_of_rank_eq {p q : Phase} (same : p.rank = q.rank) : p = q := by
  cases p <;> cases q <;> first | rfl | cases same

end Phase

namespace Hooks

inductive Place
  | before (e : Event)
  | enter (p : Phase)
  | after (e : Event)
deriving DecidableEq, Repr

def Place.entered? : Place → Option Phase
  | .enter p => some p
  | .before _ | .after _ => none

/-- A hook that was run: where it is held, the phase that it saw, the message that it was given,
and how it ended. -/
structure Ran (μ : Type) where
  place : Place
  phase : Phase
  message : μ
  outcome : Except String Unit

/-- The phases whose hooks are among those that were run. -/
def entered {μ : Type} (ran : List (Ran μ)) : List Phase := ran.filterMap (·.place.entered?)

inductive Demand (μ : Type)
  | raise (e : Event) (m : μ)
  | terminate (m : μ)

/-- What was asked of a lifecycle, with the answer. -/
inductive Asked (μ : Type)
  | raise (e : Event) (m : μ) (answer : Except LifecycleError Unit)
  | terminate (m : μ) (answer : Except LifecycleError Bool)

def Asked.demand {μ : Type} : Asked μ → Demand μ
  | .raise e m _ => .raise e m
  | .terminate m _ => .terminate m

/-- One thing asked of a lifecycle: the phase and the owner's state before and after it, and the
hooks that were run, in that order. -/
structure Turn (σ μ : Type) where
  asked : Asked μ
  old : Phase
  new : Phase
  start : σ
  finish : σ
  ran : List (Ran μ)

variable {σ μ : Type}

def held (hooks : Hooks σ μ) : Place → Option (Hook σ μ)
  | .before e => hooks.before e
  | .enter p => hooks.enter p
  | .after e => hooks.after e

/-! ## Hooks that keep a log -/

/-- A hook that also writes down that it was run. -/
def note (place : Place) (hook : Hook σ μ) : Hook (σ × List (Ran μ)) μ := fun phase m s =>
  match hook phase m s.1 with
  | (outcome, s') => (outcome, s', s.2 ++ [⟨place, phase, m, outcome⟩])

/-- The same hooks, keeping a log beside the state of their owner. -/
def noted (hooks : Hooks σ μ) : Hooks (σ × List (Ran μ)) μ where
  before e := (hooks.before e).map (note (.before e))
  enter p := (hooks.enter p).map (note (.enter p))
  after e := (hooks.after e).map (note (.after e))

def turn (hooks : Hooks σ μ) (p : Phase) (s : σ) : Demand μ → Turn σ μ
  | .raise e m =>
    { asked := .raise e m (hooks.raise e m p s).1
      old := p
      new := (hooks.raise e m p s).2.1
      start := s
      finish := (hooks.raise e m p s).2.2
      ran := (hooks.noted.raise e m p (s, [])).2.2.2 }
  | .terminate m =>
    { asked := .terminate m (hooks.terminate m p s).1
      old := p
      new := (hooks.terminate m p s).2.1
      start := s
      finish := (hooks.terminate m p s).2.2
      ran := (hooks.noted.terminate m p (s, [])).2.2.2 }

def turns (hooks : Hooks σ μ) : Phase → σ → List (Demand μ) → List (Turn σ μ)
  | _, _, [] => []
  | p, s, d :: demands =>
    hooks.turn p s d :: hooks.turns (hooks.turn p s d).new (hooks.turn p s d).finish demands

def heard (hooks : Hooks σ μ) (place : Place) (phase : Phase) (m : μ) (s : σ) : List (Ran μ) :=
  ((hooks.held place).map fun hook => ⟨place, phase, m, (hook phase m s).1⟩).toList

/-- Hooks that keep a log do what they did without it. -/
theorem run_noted (hooks : Hooks σ μ) (place : Place) (phase : Phase) (m : μ) (s : σ)
    (log : List (Ran μ)) :
    run (hooks.noted.held place) phase m (s, log) =
      ((run (hooks.held place) phase m s).1, (run (hooks.held place) phase m s).2,
        log ++ hooks.heard place phase m s) := by
  have same : hooks.noted.held place = (hooks.held place).map (note place) := by
    cases place <;> rfl
  rw [same, heard]
  cases hooks.held place with
  | none => simp [run]
  | some hook => rfl

/-! ## Hooks that are run one after another -/

/-- Hooks are run place after place, each one in the phase given with its place and on the state
that the one before it left, until one fails. -/
inductive Runs (hooks : Hooks σ μ) (m : μ) :
    List (Place × Phase) → σ → List (Ran μ) → Option String → σ → Prop
  | finished {s : σ} : Runs hooks m [] s [] none s
  | vacant {place : Place} {phase : Phase} {due : List (Place × Phase)} {s s' : σ}
      {ran : List (Ran μ)} {fault : Option String} :
      hooks.held place = none → Runs hooks m due s ran fault s' →
      Runs hooks m ((place, phase) :: due) s ran fault s'
  | passed {place : Place} {phase : Phase} {hook : Hook σ μ} {due : List (Place × Phase)}
      {s s₁ s' : σ} {ran : List (Ran μ)} {fault : Option String} :
      hooks.held place = some hook → hook phase m s = (.ok (), s₁) →
      Runs hooks m due s₁ ran fault s' →
      Runs hooks m ((place, phase) :: due) s (⟨place, phase, m, .ok ()⟩ :: ran) fault s'
  | failed {place : Place} {phase : Phase} {hook : Hook σ μ} {due : List (Place × Phase)}
      {s s' : σ} {reason : String} :
      hooks.held place = some hook → hook phase m s = (.error reason, s') →
      Runs hooks m ((place, phase) :: due) s [⟨place, phase, m, .error reason⟩] (some reason) s'

namespace Runs

variable {hooks : Hooks σ μ} {m : μ} {place : Place} {phase : Phase}
  {due due' : List (Place × Phase)} {s s₁ s' : σ} {ran ran' : List (Ran μ)}
  {fault : Option String} {reason : String}

theorem one (ok : run (hooks.held place) phase m s = (.ok (), s')) :
    Runs hooks m [(place, phase)] s (hooks.heard place phase m s) none s' := by
  rw [heard]
  cases held : hooks.held place with
  | none =>
    rw [held] at ok
    cases ok
    exact .vacant held .finished
  | some hook =>
    rw [held] at ok
    have passed : hook phase m s = (.ok (), s') := ok
    simp only [Option.map_some, Option.toList_some, passed]
    exact .passed held passed .finished

theorem fail (error : run (hooks.held place) phase m s = (.error reason, s')) :
    Runs hooks m [(place, phase)] s (hooks.heard place phase m s) (some reason) s' := by
  rw [heard]
  cases held : hooks.held place with
  | none => rw [held] at error; cases error
  | some hook =>
    rw [held] at error
    have failed : hook phase m s = (.error reason, s') := error
    simp only [Option.map_some, Option.toList_some, failed]
    exact .failed held failed

/-- Where no hook fails, what is due further on is run as well. -/
theorem append (runs : Runs hooks m due s ran none s₁)
    (further : Runs hooks m due' s₁ ran' fault s') :
    Runs hooks m (due ++ due') s (ran ++ ran') fault s' := by
  generalize passed : (none : Option String) = fault₁ at runs
  induction runs with
  | finished => exact further
  | vacant held _ ih => exact .vacant held (ih further passed)
  | passed held ok _ ih => exact .passed held ok (ih further passed)
  | failed => cases passed

theorem stop (runs : Runs hooks m due s ran (some reason) s') (due' : List (Place × Phase)) :
    Runs hooks m (due ++ due') s ran (some reason) s' := by
  generalize failed : some reason = fault at runs
  induction runs with
  | finished => cases failed
  | vacant held _ ih => exact .vacant held (ih failed)
  | passed held ok _ ih => exact .passed held ok (ih failed)
  | failed held error => exact .failed held error

theorem places_sublist (runs : Runs hooks m due s ran fault s') :
    (ran.map fun r => (r.place, r.phase)).Sublist due := by
  induction runs with
  | finished => exact .slnil
  | vacant _ _ ih => exact ih.cons _
  | passed _ _ _ ih => exact ih.cons_cons _
  | failed => exact (List.nil_sublist _).cons_cons _

theorem entered_eq_nil (runs : Runs hooks m due s ran fault s')
    (none : due.filterMap (·.1.entered?) = []) : entered ran = [] := by
  have among := runs.places_sublist.filterMap (·.1.entered?)
  rw [List.filterMap_map, none] at among
  exact List.sublist_nil.1 among

theorem entered_eq {p : Phase} (runs : Runs hooks m ((.enter p, phase) :: due) s ran fault s')
    (none : due.filterMap (·.1.entered?) = []) :
    entered ran = if (hooks.enter p).isSome then [p] else [] := by
  cases runs with
  | vacant held runs =>
    have vacant : hooks.enter p = .none := held
    rw [runs.entered_eq_nil none, vacant]
    rfl
  | passed held _ runs =>
    have here : hooks.enter p = some _ := held
    rw [here]
    exact congrArg (p :: ·) (runs.entered_eq_nil none)
  | failed held _ =>
    have here : hooks.enter p = some _ := held
    rw [here]
    rfl

end Runs

/-! ## The law of a turn -/

/-- What is due after the hook before an event: the hook of a phase that is newly entered, then
the hook after the event, both in the new phase. -/
def later (e : Event) (p q : Phase) : List (Place × Phase) :=
  if p = q then [(.after e, q)] else [(.enter q, q), (.after e, q)]

/-- The answer to an event whose hook before it did not fail. -/
def raised : Option String → Except LifecycleError Unit
  | none => .ok ()
  | some reason => .error (.hookFailed reason)

def terminated : Option String → Except LifecycleError Bool
  | none => .ok true
  | some reason => .error (.hookFailed reason)

/-- The law of a turn. -/
inductive Lawful (hooks : Hooks σ μ) : Turn σ μ → Prop
  /-- An illegal event changes nothing, and runs nothing. -/
  | illegal {p : Phase} {s : σ} {e : Event} {m : μ} : p.next? e = none →
      Lawful hooks ⟨.raise e m (.error (.invalidEvent e p)), p, p, s, s, []⟩
  /-- Where the hook before the event fails, the phase stays, and nothing else is run. -/
  | cancelled {p q : Phase} {s s' : σ} {e : Event} {m : μ} {ran : List (Ran μ)} {reason : String} :
      p.next? e = some q → Runs hooks m [(.before e, p)] s ran (some reason) s' →
      Lawful hooks ⟨.raise e m (.error (.cancelled e reason)), p, p, s, s', ran⟩
  /-- Where it does not, the phase changes, whatever comes of the other hooks. -/
  | raised {p q : Phase} {s s₁ s' : σ} {e : Event} {m : μ} {first rest : List (Ran μ)}
      {fault : Option String} :
      p.next? e = some q → Runs hooks m [(.before e, p)] s first none s₁ →
      Runs hooks m (later e p q) s₁ rest fault s' →
      Lawful hooks ⟨.raise e m (raised fault), p, q, s, s', first ++ rest⟩
  /-- What has ended is not ended again. -/
  | again {s : σ} {m : μ} : Lawful hooks ⟨.terminate m (.ok false), .ended, .ended, s, s, []⟩
  /-- A lifecycle ends, whatever comes of the hook of that. -/
  | terminated {p : Phase} {s s' : σ} {m : μ} {ran : List (Ran μ)} {fault : Option String} :
      p ≠ .ended → Runs hooks m [(.enter .ended, .ended)] s ran fault s' →
      Lawful hooks ⟨.terminate m (terminated fault), p, .ended, s, s', ran⟩

/-- Runs a hook once the phase has changed: that one fails then is no reason to go back. -/
def runLate (hooks : Hooks σ μ) (place : Place) (phase : Phase) (m : μ) (s : σ) :
    Except LifecycleError Unit × σ :=
  match run (hooks.held place) phase m s with
  | (.error reason, s') => (.error (.hookFailed reason), s')
  | (.ok (), s') => (.ok (), s')

theorem runEnter_eq (hooks : Hooks σ μ) (q : Phase) (m : μ) (s : σ) :
    hooks.runEnter q m s = hooks.runLate (.enter q) q m s := rfl

theorem runAfter_eq (hooks : Hooks σ μ) (e : Event) (q : Phase) (m : μ) (s : σ) :
    hooks.runAfter e q m s = hooks.runLate (.after e) q m s := rfl

theorem runLate_noted (hooks : Hooks σ μ) (place : Place) (phase : Phase) (m : μ) (s : σ)
    (log : List (Ran μ)) :
    hooks.noted.runLate place phase m (s, log) =
      ((hooks.runLate place phase m s).1, (hooks.runLate place phase m s).2,
        log ++ hooks.heard place phase m s) := by
  rw [runLate, run_noted, runLate]
  rcases run (hooks.held place) phase m s with ⟨_ | _, _⟩ <;> rfl

theorem runs_late (hooks : Hooks σ μ) (place : Place) (phase : Phase) (m : μ) (s : σ) :
    ∃ fault, (hooks.runLate place phase m s).1 = raised fault ∧
      Runs hooks m [(place, phase)] s (hooks.heard place phase m s) fault
        (hooks.runLate place phase m s).2 := by
  rw [runLate]
  rcases late : run (hooks.held place) phase m s with ⟨reason | _, s'⟩
  · exact ⟨some reason, rfl, .fail late⟩
  · exact ⟨none, rfl, .one late⟩

theorem lawful_raise (hooks : Hooks σ μ) (p : Phase) (s : σ) (e : Event) (m : μ) :
    Lawful hooks (hooks.turn p s (.raise e m)) := by
  rw [turn]
  cases next : p.next? e with
  | none =>
    simp only [raise, next]
    exact .illegal next
  | some q =>
    have notedBefore := run_noted hooks (.before e) p m s []
    simp only [held] at notedBefore
    rcases before : run (hooks.before e) p m s with ⟨reason | _, s₁⟩
    · simp only [raise, next, notedBefore, before]
      exact .cancelled next (.fail before)
    · simp only [raise, next, notedBefore, before]
      have first : Runs hooks m [(.before e, p)] s _ none s₁ := .one before
      by_cases same : p = q
      · simp only [if_pos same, runAfter_eq, runLate_noted]
        obtain ⟨fault, answer, after⟩ := hooks.runs_late (.after e) q m s₁
        rw [answer]
        exact .raised next first (by rwa [later, if_pos same])
      · simp only [if_neg same, runEnter_eq, runAfter_eq, runLate_noted]
        obtain ⟨fault, answer, enter⟩ := hooks.runs_late (.enter q) q m s₁
        rcases entering : hooks.runLate (.enter q) q m s₁ with ⟨_, s₂⟩
        rw [entering] at answer enter
        cases answer
        -- whether the hook of the phase fails decides if the one after the event is run
        cases fault with
        | some reason =>
          exact .raised next first (by rw [later, if_neg same]; exact enter.stop _)
        | none =>
          simp only [runLate_noted, List.nil_append, List.append_assoc]
          obtain ⟨fault, answer, after⟩ := hooks.runs_late (.after e) q m s₂
          rw [answer]
          exact .raised next first (by rw [later, if_neg same]; exact enter.append after)

theorem lawful_terminate (hooks : Hooks σ μ) (p : Phase) (s : σ) (m : μ) :
    Lawful hooks (hooks.turn p s (.terminate m)) := by
  rw [turn]
  by_cases gone : p = .ended
  · simp only [terminate, if_pos gone]
    exact gone ▸ .again
  · simp only [terminate, if_neg gone, runEnter_eq, runLate_noted]
    obtain ⟨fault, answer, enter⟩ := hooks.runs_late (.enter .ended) .ended m s
    rcases entering : hooks.runLate (.enter .ended) .ended m s with ⟨_, s'⟩
    rw [entering] at answer enter
    cases answer
    cases fault <;> exact .terminated gone enter

theorem lawful_turn (hooks : Hooks σ μ) (p : Phase) (s : σ) :
    ∀ d, Lawful hooks (hooks.turn p s d)
  | .raise e m => hooks.lawful_raise p s e m
  | .terminate m => hooks.lawful_terminate p s m

/-! ## What the law comes to -/

namespace Lawful

variable {hooks : Hooks σ μ} {t : Turn σ μ}

/-- A turn never goes back. -/
theorem forward (lawful : Lawful hooks t) : t.old.rank ≤ t.new.rank := by
  cases lawful with
  | illegal => exact Nat.le_refl _
  | cancelled => exact Nat.le_refl _
  | raised next => exact Phase.rank_le_of_next? next
  | again => exact Nat.le_refl _
  | terminated => exact Phase.rank_le_ended _

/-- What has ended runs nothing, whatever is asked of it. -/
theorem nothing (lawful : Lawful hooks t) (gone : t.old = .ended) :
    t.new = .ended ∧ t.finish = t.start ∧ t.ran = [] := by
  cases lawful with
  | illegal => exact ⟨gone, rfl, rfl⟩
  | cancelled next => cases gone; cases next
  | raised next => cases gone; cases next
  | again => exact ⟨rfl, rfl, rfl⟩
  | terminated alive => exact absurd gone alive

/-- A turn runs the hook of the phase that it newly enters, and of no other one. -/
theorem entered_eq (lawful : Lawful hooks t) :
    entered t.ran =
      if t.old ≠ t.new ∧ (hooks.enter t.new).isSome then [t.new] else [] := by
  cases lawful with
  | illegal => simp [entered]
  | cancelled _ runs => simpa using runs.entered_eq_nil rfl
  | @raised p q _ _ _ e _ first rest _ next before runs =>
    have none : entered first = [] := before.entered_eq_nil rfl
    have parts : entered (first ++ rest) = entered rest := by
      rw [entered, List.filterMap_append]
      exact congrArg (· ++ entered rest) none
    by_cases same : p = q
    · rw [later, if_pos same] at runs
      simpa [parts, same] using runs.entered_eq_nil rfl
    · rw [later, if_neg same] at runs
      simpa [parts, same] using runs.entered_eq rfl
  | again => simp [entered]
  | terminated alive runs => simpa [alive] using runs.entered_eq rfl

theorem mem_entered_iff (lawful : Lawful hooks t) {p : Phase} :
    p ∈ entered t.ran ↔ (hooks.enter p).isSome ∧ t.new = p ∧ t.old ≠ p := by
  rw [lawful.entered_eq]
  split <;> grind

/-- A lifecycle is told that it had ended before, and nothing is run, exactly if that is so. -/
theorem again_iff (lawful : Lawful hooks t) {m : μ} {answer : Except LifecycleError Bool}
    (asked : t.asked = .terminate m answer) :
    answer = .ok false ∧ t.ran = [] ↔ t.old = .ended := by
  cases lawful with
  | illegal => cases asked
  | cancelled => cases asked
  | raised => cases asked
  | again => cases asked; exact ⟨fun _ => rfl, fun _ => ⟨rfl, rfl⟩⟩
  | @terminated _ _ _ _ _ fault alive =>
    cases asked
    refine ⟨fun both => ?_, fun gone => absurd gone alive⟩
    cases fault <;> cases both.1

end Lawful

/-! ## A whole life -/

/-- What holds of a turn after others, where the lifecycle began with a state of its owner. -/
structure Follows (hooks : Hooks σ μ) (s : σ) (past : List (Turn σ μ)) (t : Turn σ μ) : Prop where
  /-- It goes on from where the turn before it left off. -/
  phase : t.old = (past.getLast?.map Turn.new).getD .created
  state : t.start = (past.getLast?.map Turn.finish).getD s
  lawful : Lawful hooks t
  /-- It goes back behind no phase that there has been. -/
  forward : ∀ p ∈ .created :: past.map Turn.new, p.rank ≤ t.new.rank
  /-- After the end nothing changes and nothing is run. -/
  stays : .ended ∈ past.map Turn.new → t.new = .ended ∧ t.finish = t.start ∧ t.ran = []
  /-- It runs the hook of a phase exactly if it is the first to reach the phase. -/
  entered : ∀ p, p ∈ entered t.ran ↔
    (hooks.enter p).isSome ∧ t.new = p ∧ p ∉ .created :: past.map Turn.new
  /-- It answers that there was nothing to end, and runs nothing, exactly after the end. -/
  again : ∀ m answer, t.asked = .terminate m answer →
    (answer = .ok false ∧ t.ran = [] ↔ t.old = .ended)

/-- What holds of the turns that a lifecycle takes on demand, from its beginning in a state. -/
structure Orderly (hooks : Hooks σ μ) (s : σ) (demands : List (Demand μ))
    (ts : List (Turn σ μ)) : Prop where
  asked : ts.map (·.asked.demand) = demands
  follows : ∀ past t rest, ts = past ++ t :: rest → Follows hooks s past t
  /-- The hooks of the phases are run in the order of the phases, each at most once. -/
  once : (ts.flatMap fun t => entered t.ran).Pairwise fun p q => p.rank < q.rank

variable {hooks : Hooks σ μ} {p : Phase} {s : σ} {demands : List (Demand μ)}
  {past rest : List (Turn σ μ)} {t : Turn σ μ}

theorem turn_old (hooks : Hooks σ μ) (p : Phase) (s : σ) (d : Demand μ) :
    (hooks.turn p s d).old = p := by cases d <;> rfl

theorem turn_start (hooks : Hooks σ μ) (p : Phase) (s : σ) (d : Demand μ) :
    (hooks.turn p s d).start = s := by cases d <;> rfl

theorem turn_demand (hooks : Hooks σ μ) (p : Phase) (s : σ) (d : Demand μ) :
    (hooks.turn p s d).asked.demand = d := by cases d <;> rfl

theorem demands_turns (hooks : Hooks σ μ) (p : Phase) (s : σ) (demands : List (Demand μ)) :
    (hooks.turns p s demands).map (·.asked.demand) = demands := by
  induction demands generalizing p s with
  | nil => rfl
  | cons d demands ih => rw [turns, List.map_cons, turn_demand, ih]

/-- Each turn is one from where the turn before it left off. -/
theorem turn_of_split (split : hooks.turns p s demands = past ++ t :: rest) :
    ∃ d, t = hooks.turn ((past.getLast?.map Turn.new).getD p)
      ((past.getLast?.map Turn.finish).getD s) d := by
  induction past generalizing p s demands with
  | nil =>
    cases demands with
    | nil => cases split
    | cons d demands => exact ⟨d, (List.cons.inj split).1.symm⟩
  | cons u past ih =>
    cases demands with
    | nil => cases split
    | cons d demands =>
      obtain ⟨rfl, further⟩ := List.cons.inj split
      obtain ⟨d', here⟩ := ih further
      refine ⟨d', here.trans ?_⟩
      rw [List.getLast?_cons]
      cases past.getLast? <;> rfl

/-- No turn begins behind a phase that there has been. -/
theorem rank_le_of_split (split : hooks.turns p s demands = past ++ t :: rest) :
    ∀ q ∈ p :: past.map Turn.new, q.rank ≤ t.old.rank := by
  induction past generalizing p s demands with
  | nil =>
    intro q reached
    obtain ⟨d, rfl⟩ := turn_of_split split
    rw [turn_old, List.mem_singleton.1 reached]
    exact Nat.le_refl _
  | cons u past ih =>
    cases demands with
    | nil => cases split
    | cons d demands =>
      obtain ⟨rfl, further⟩ := List.cons.inj split
      intro q reached
      rcases List.mem_cons.1 reached with rfl | reached
      · have forward := (hooks.lawful_turn q s d).forward
        rw [turn_old] at forward
        exact Nat.le_trans forward (ih further _ List.mem_cons_self)
      · exact ih further q reached

theorem old_mem_of_split (split : hooks.turns p s demands = past ++ t :: rest) :
    t.old ∈ p :: past.map Turn.new := by
  obtain ⟨d, rfl⟩ := turn_of_split split
  rw [turn_old, ← List.getLast?_map]
  cases last : (past.map Turn.new).getLast? with
  | none => exact List.mem_cons_self
  | some q => exact List.mem_cons_of_mem _ (List.mem_of_getLast? last)

theorem entered_turns (hooks : Hooks σ μ) (p : Phase) (s : σ) (demands : List (Demand μ)) :
    (p :: (hooks.turns p s demands).flatMap fun t => entered t.ran).Pairwise
      fun p q => p.rank < q.rank := by
  induction demands generalizing p s with
  | nil => exact List.pairwise_singleton ..
  | cons d demands ih =>
    have rest := ih (hooks.turn p s d).new (hooks.turn p s d).finish
    have lawful := hooks.lawful_turn p s d
    have forward := lawful.forward
    rw [turns, List.flatMap_cons, lawful.entered_eq]
    rw [turn_old] at forward ⊢
    split
    · rename_i enters
      have above : p.rank < (hooks.turn p s d).new.rank :=
        Nat.lt_of_le_of_ne forward fun same => enters.1 (Phase.eq_of_rank_eq same)
      refine List.pairwise_cons.2 ⟨fun q reached => ?_, rest⟩
      rcases List.mem_cons.1 reached with rfl | further
      · exact above
      · exact Nat.lt_trans above (List.rel_of_pairwise_cons rest further)
    · exact List.pairwise_cons.2 ⟨fun q further =>
        Nat.lt_of_le_of_lt forward (List.rel_of_pairwise_cons rest further), rest.of_cons⟩

theorem follows_of_split (split : hooks.turns .created s demands = past ++ t :: rest) :
    Follows hooks s past t := by
  have ⟨d, here⟩ := turn_of_split split
  have lawful : Lawful hooks t := here ▸ hooks.lawful_turn _ _ d
  refine ⟨by rw [here, turn_old], by rw [here, turn_start], lawful, fun q reached => ?_,
    fun ended => ?_, fun q => ?_, fun m answer => lawful.again_iff⟩
  · exact Nat.le_trans (rank_le_of_split split q reached) lawful.forward
  · have gone := rank_le_of_split split .ended (List.mem_cons_of_mem _ ended)
    exact lawful.nothing (Phase.eq_of_rank_eq (Nat.le_antisymm t.old.rank_le_ended gone))
  · rw [lawful.mem_entered_iff]
    refine and_congr_right fun _ => and_congr_right fun here => ⟨fun new reached => ?_,
      fun new same => new (same ▸ old_mem_of_split split)⟩
    -- a phase that was reached is not above the one that the turn leaves
    have among := rank_le_of_split split q reached
    exact new (Phase.eq_of_rank_eq (Nat.le_antisymm (here ▸ lawful.forward) among))

/-- Whatever hooks there are and whatever is asked of a lifecycle, it goes forward only, and runs
the hooks that it has to in the order in which it has to. -/
theorem orderly_of_turns (hooks : Hooks σ μ) (s : σ) (demands : List (Demand μ)) :
    Orderly hooks s demands (hooks.turns .created s demands) where
  asked := demands_turns ..
  follows _ _ _ := follows_of_split
  once := (entered_turns hooks .created s demands).of_cons

end Hooks

end ContractNode
