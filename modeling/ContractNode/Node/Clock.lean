import ContractNode.Node.Settle

/-!
# Time

Nothing that a node does by itself takes time. While time passes, the executions that run out of it
end one by one, and the node comes to rest after each of them.

* `Node.dues`, `Node.nextDue?` : what will run out of time, and what does so first;
* `Node.lapse` : an execution runs out of time;
* `Node.lapseWhile` : executions run out of time, in their order, under a condition;
* `Node.pass` : a span of time passes;
* `Node.waitFor` : the time passes that somebody waits for an execution.
-/

namespace ContractNode

namespace Node

/-- The executions that will run out of time, with the times at which they do. -/
def dues (n : Node) : List (Nat × Call) :=
  n.calls.filterMap fun c => c.deadline.map fun t => (t, c)

theorem mem_dues {n : Node} {t : Nat} {c : Call} :
    (t, c) ∈ n.dues ↔ c ∈ n.calls ∧ c.deadline = some t := by
  simp only [dues, List.mem_filterMap, Option.map_eq_some_iff, Prod.mk.injEq]
  constructor
  · rintro ⟨c, mem, t, due, rfl, rfl⟩
    exact ⟨mem, due⟩
  · rintro ⟨mem, due⟩
    exact ⟨c, mem, t, due, rfl, rfl⟩

/-- The execution that runs out of time first, and when. Of those that do so at one time it is the
one that began first. -/
def nextDue? (n : Node) : Option (Nat × Call) := n.dues.minOn? Prod.fst

theorem mem_calls_of_nextDue? {n : Node} {t : Nat} {c : Call} (h : n.nextDue? = some (t, c)) :
    c ∈ n.calls :=
  (mem_dues.1 (List.minOn?_mem h)).1

theorem le_of_nextDue? {n : Node} {t t' : Nat} {c c' : Call} (h : n.nextDue? = some (t, c))
    (mem : (t', c') ∈ n.dues) : t ≤ t' := by
  have least := List.apply_minOn_le_of_mem (f := Prod.fst) mem
  rw [nextDue?, List.minOn?_eq_some_minOn (List.ne_nil_of_mem mem)] at h
  rwa [Option.some.inj h] at least

theorem dues_eq_nil_of_nextDue? {n : Node} (h : n.nextDue? = none) : n.dues = [] :=
  Decidable.byContradiction fun some => by
    rw [nextDue?, List.minOn?_eq_some_minOn some] at h
    cases h

/-- It becomes the given time, unless it is later; an execution runs out of time, and the node comes
to rest. -/
def lapse (n : Node) (t : Nat) (c : Call) : Node :=
  ({ n with clock := max n.clock t }.expire c).settle

/-- Executions run out of time, the one that is first to do so before the others, while a condition
holds of the node and the time at which the next of them does; at most the given number. -/
def lapseWhile (goOn : Node → Nat → Bool) : Nat → Node → Node
  | 0, n => n
  | k + 1, n =>
    match n.nextDue? with
    | none => n
    | some (t, c) => if goOn n t then lapseWhile goOn k (n.lapse t c) else n

def pass (n : Node) (span : Nat) : Node :=
  { lapseWhile (fun _ t => t ≤ n.clock + span) n.weight n with clock := n.clock + span }

/-- Somebody from outside waits for the execution of a label. -/
def awaits (n : Node) (label : String) : Bool :=
  n.calls.any fun c => c.origin == .caller label

/-- The time passes that somebody from outside waits for an execution. What has run out of time by
then ends too. Where nothing will ever run out of time no time passes. -/
def waitFor (n : Node) (label : String) : Node :=
  lapseWhile (fun n t => n.awaits label || t ≤ n.clock) n.weight n

end Node

end ContractNode
