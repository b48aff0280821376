import ContractNode.Proofs.Sound

/-!
# Nodes at rest

* `Session.Quiet` : nothing that a session has to do can be done now;
* `sessionTurn?_eq_none_iff`, `atRest_iff` : a node is at rest when its sessions are quiet, and no
  execution that waits has its message;
* `settle_of_turn`, `settle_of_atRest` : coming to rest, turn by turn;
* `atRest_steps` : a node is at rest after each act.
-/

namespace ContractNode

/-- Nothing that a session has to do can be done now, while the keys of `gates` cannot be read. -/
structure Session.Quiet (ses : Session) (gates : List String) : Prop where
  commands : ses.outbound = .running → ses.commands = []
  pool : ses.pool.take = none
  dials : ses.dials = []
  parked : ∀ p ∈ ses.parked, p.ref.key ∈ gates
  inbox : ses.inbound = .running → ses.link.inbox.queue = [] ∧ ses.link.inbox.closed = false

namespace Node

/-! ## Turns that are not taken -/

section Turns

variable {n : Node} {s : SessionId} {ses : Session}

theorem command?_eq_none_iff (found : n.session? s = some ses) :
    n.command? s = none ↔ (ses.outbound = .running → ses.commands = []) := by
  unfold command?
  simp only [found]
  by_cases running : ses.outbound = .running
  · rw [if_pos running]
    cases queued : ses.commands with
    | nil => simp
    | cons i rest => cases i <;> simp [running]
  · simp [running]

theorem work?_eq_none_iff (found : n.session? s = some ses) :
    n.work? s = none ↔ ses.pool.take = none := by
  unfold work?
  simp only [found]
  cases ses.pool.take with
  | none => simp
  | some t =>
    obtain ⟨t, pool⟩ := t
    cases t <;> simp

theorem dial?_eq_none_iff (found : n.session? s = some ses) :
    n.dial? s = none ↔ ses.dials = [] := by
  unfold dial?
  simp [found]

theorem resume?_eq_none_iff (found : n.session? s = some ses) :
    n.resume? s = none ↔ ∀ p ∈ ses.parked, p.ref.key ∈ n.gates := by
  unfold resume?
  simp [found]

theorem receive?_eq_none_iff (found : n.session? s = some ses) :
    n.receive? s = none ↔ (ses.inbound = .running →
      ses.link.inbox.queue = [] ∧ ses.link.inbox.closed = false) := by
  unfold receive?
  simp only [found]
  by_cases running : ses.inbound = .running
  · rw [if_pos running]
    unfold Pipe.receive
    cases queued : ses.link.inbox.queue with
    | nil => cases closed : ses.link.inbox.closed <;> simp [running]
    | cons a rest => cases a <;> simp [running]
  · simp [running]

theorem orElse_eq_none {α : Type} {a b : Option α} : (a <|> b) = none ↔ a = none ∧ b = none := by
  cases a <;> simp

theorem sessionTurn?_eq_none_iff (found : n.session? s = some ses) :
    n.sessionTurn? s = none ↔ ses.Quiet n.gates := by
  unfold sessionTurn?
  rw [orElse_eq_none, orElse_eq_none, orElse_eq_none, orElse_eq_none, dial?_eq_none_iff found,
    command?_eq_none_iff found, work?_eq_none_iff found, resume?_eq_none_iff found,
    receive?_eq_none_iff found]
  constructor
  · rintro ⟨dials, commands, pool, parked, inbox⟩
    exact ⟨commands, pool, dials, parked, inbox⟩
  · rintro ⟨commands, pool, dials, parked, inbox⟩
    exact ⟨dials, commands, pool, parked, inbox⟩

theorem sessionTurn?_missing (none : n.session? s = none) : n.sessionTurn? s = .none := by
  simp [sessionTurn?, dial?, command?, work?, resume?, receive?, none]

end Turns

/-- No execution that waits has its message, and all sessions are quiet. -/
theorem atRest_iff {n : Node} : n.AtRest ↔
    (∀ call ∈ n.calls, n.finish? call = none) ∧
      ∀ s ses, n.session? s = some ses → ses.Quiet n.gates := by
  unfold AtRest turn?
  rw [orElse_eq_none, List.findSome?_eq_none_iff, List.findSome?_eq_none_iff]
  refine and_congr_right fun _ => ⟨fun quiet s ses found => ?_, fun quiet s _ => ?_⟩
  · have present : s < n.sessions.length := (List.getElem?_eq_some_iff.1 found).1
    exact (sessionTurn?_eq_none_iff found).1 (quiet s (List.mem_range.2 present))
  · cases found : n.session? s with
    | none => exact sessionTurn?_missing found
    | some ses => exact (sessionTurn?_eq_none_iff found).2 (quiet s ses found)

/-! ## Coming to rest -/

theorem turns_of_atRest {n : Node} (h : n.AtRest) (k : Nat) : turns k n = n := by
  cases k with
  | zero => rfl
  | succ k => rw [turns, h]

/-- Once there are enough turns, more of them make no difference. -/
theorem turns_eq (k k' : Nat) {n : Node} (h : n.weight ≤ k) (h' : n.weight ≤ k') :
    turns k n = turns k' n := by
  induction k generalizing k' n with
  | zero =>
    have rest : n.AtRest := turns_atRest 0 n h
    rw [turns_of_atRest rest, turns_of_atRest rest]
  | succ k ih =>
    cases next : n.turn? with
    | none => rw [turns_of_atRest next, turns_of_atRest next]
    | some n' =>
      have less := weight_turn? next
      cases k' with
      | zero => omega
      | succ k' =>
        simp only [turns, next]
        exact ih k' (by omega) (by omega)

/-- A node that takes a turn comes to rest where the turn leads to. -/
theorem settle_of_turn {n n' : Node} (h : n.turn? = some n') : n.settle = n'.settle := by
  have less := weight_turn? h
  unfold settle
  obtain ⟨k, more⟩ : ∃ k, n.weight = k + 1 := ⟨n.weight - 1, by omega⟩
  rw [more]
  simp only [turns, h]
  exact turns_eq k n'.weight (by omega) (Nat.le_refl _)

theorem settle_of_atRest {n : Node} (h : n.AtRest) : n.settle = n := turns_of_atRest h _

theorem atRest_withChannels (channels historyless system : List String) (drill : Drill) :
    (withChannels channels historyless system drill).AtRest :=
  rfl

theorem atRest_steps {n : Node} (h : n.AtRest) (acts : List Act) : (n.steps acts).AtRest := by
  induction acts generalizing n with
  | nil => exact h
  | cons a acts ih => exact ih (settle_atRest _)

/-! ## The turn that is taken -/

/-- The one element that leads to something is what a search finds. -/
theorem findSome?_of_unique {α β : Type} {l : List α} {f : α → Option β} {a : α} {b : β}
    (mem : a ∈ l) (leads : f a = some b) (others : ∀ x ∈ l, x ≠ a → f x = none) :
    l.findSome? f = some b := by
  cases result : l.findSome? f with
  | none =>
    rw [List.findSome?_eq_none_iff] at result
    rw [result a mem] at leads
    cases leads
  | some b' =>
    obtain ⟨x, there, leads'⟩ := List.exists_of_findSome?_eq_some result
    by_cases same : x = a
    · rw [same, leads] at leads'
      exact leads'.symm
    · rw [others x there same] at leads'
      cases leads'

/-- The one execution that has its message returns first. -/
theorem turn?_of_finish? {n n' : Node} {call : Call} (waits : call ∈ n.calls)
    (finished : n.finish? call = some n')
    (others : ∀ call' ∈ n.calls, call' ≠ call → n.finish? call' = none) : n.turn? = some n' := by
  unfold turn?
  rw [findSome?_of_unique waits finished others]
  rfl

/-- The one session that has anything to do takes its turn, if no execution returns. -/
theorem turn?_of_sessionTurn? {n n' : Node} {s : SessionId} {ses : Session}
    (found : n.session? s = some ses) (took : n.sessionTurn? s = some n')
    (waiting : ∀ call ∈ n.calls, n.finish? call = none)
    (others : ∀ t, t ≠ s → n.sessionTurn? t = none) : n.turn? = some n' := by
  have present : s ∈ List.range n.sessions.length :=
    List.mem_range.2 (List.getElem?_eq_some_iff.1 found).1
  unfold turn?
  rw [List.findSome?_eq_none_iff.2 waiting,
    findSome?_of_unique present took fun t _ other => others t other]
  rfl

end Node

end ContractNode
