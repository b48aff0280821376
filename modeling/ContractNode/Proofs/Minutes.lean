import ContractNode.Proofs.DeskActs
import ContractNode.Proofs.DeskTurns

/-!
# The minutes of a node

Whatever happens to a node is a trail at the desk of each of its sessions.

* `Minute.Fits` : when a minute belongs to what happens;
* `trail_act`, `trail_of_move` : whatever happens is a trail whose minutes belong to it;
* `Node.Attended`, `attended_moves` : what the desks of a node are like, however it came about.
-/

namespace ContractNode

/-- A session that is opened has a worker. -/
def Act.isManned : Act → Bool
  | .openSession config .. => 0 < config.workers
  | _ => true

/-- The kind of the message that an act has a session send to its contract. -/
def Act.voice? : Act → Option MessageKind
  | .trigger _ m _ | .send _ m | .execute _ _ _ m _ _ => some m.kind
  | .run _ _ i => some i.message.kind
  | .ready .. => some .ready
  | _ => none

/-- A minute belongs to something that happens to a node, where the acts in `P` can come from
outside. -/
inductive Minute.Fits (P : Act → Prop) (s : SessionId) (n n' : Node) : Minute → Prop
  | arrived {m : Message} (given : P (.contractSends s m)) (done : n' = n.act (.contractSends s m)) :
      Fits P s n n' (.arrived m)
  | received {m : Message} (took : n.receive? s = some n') : Fits P s n n' (.received m)
  | handed {m : Message} (given : P (.handle s m)) (done : n' = n.act (.handle s m)) :
      Fits P s n n' (.handed m)
  | shown {c : Command} (took : n.command? s = some n')
      (informs : (n.desk s).isReady = true → c.sync = false → n.Informs s c n') :
      Fits P s n n' (.shown c)
  | ordered {a : Act} {c : Command} (given : P a) (done : n' = n.act a)
      (asks : a.voice? = some c.message.kind) : Fits P s n n' (.ordered c)
  | said {m : Message} (given : P (.send s m)) (done : n' = n.act (.send s m)) :
      Fits P s n n' (.said m)
  | read {ms : List Message} (given : P (.contractReads s)) (done : n' = n.act (.contractReads s)) :
      Fits P s n n' (.read ms)
  | dropped {job : Job} (takes : Node.TakesUp s job n n') : Fits P s n n' (.dropped job)
  | answered {job : Job} {r : Message} (takes : Node.TakesUp s job n n')
      (still : job.kind ≠ .invoke → n.Undisturbed n') : Fits P s n n' (.answered job r)
  | waits {job : Job} (takes : Node.TakesUp s job n n') : Fits P s n n' (.waits job)
  | returned {job : Job} {r : Message} (still : job.kind ≠ .invoke → n.Undisturbed n') :
      Fits P s n n' (.returned job r)
  | mended (shut : (n.desk s).isOpen = false) : Fits P s n n' .mended
  | ensues {e : Minute} (ensues : e.Ensues) : Fits P s n n' e

namespace Node

variable {P : Act → Prop} {n n' : Node} {s t : SessionId}

/-- Something that comes from outside is a trail at every desk. -/
theorem trail_act (a : Act) (given : P a) (once : ∀ span, a ≠ .pass span)
    (built : a.isManned = true) (staffed : n.StaffedAt s) :
    ∃ es, Desk.Trail (n.desk s) es ((n.act a).desk s) ∧ ∀ e ∈ es, e.Fits P s n (n.act a) := by
  cases a with
  | openSession config access launcher =>
    exact trail_openSession n config access launcher s (of_decide_eq_true built) .mended
  | start t =>
    refine trail_still ?_
    show (n.start t).2.desk s = _
    rcases n.start_cases t with same | ⟨ses, found, idle, started⟩
    · rw [same]
    · rw [started]
      refine desk_apart n t s fun _ ses' found' calls => ?_
      cases Option.some.inj (found.symm.trans found')
      simp [Session.desk, Session.isOpen, idle]
      rfl
  | contractSends t m =>
    exact trail_contractSends n s t m fun same => same ▸ .arrived (same ▸ given) (same ▸ rfl)
  | contractReads t =>
    exact trail_contractReads n s t fun ms same => .read (same ▸ given) (same ▸ rfl)
  | contractCloses t => exact trail_still (desk_apart n t s fun _ _ _ _ => rfl)
  | contractDrops t => exact trail_contractDrops n s t (.ensues trivial)
  | breakReceive t e => exact trail_breakReceive n s t e
  | breakSend t broken => exact trail_breakSend n s t broken (.ensues trivial) .mended
  | handle t m =>
    by_cases same : t = s
    · subst same
      obtain ⟨es, trail, ensues⟩ := trail_handle n t m staffed
      refine ⟨_, .cons (Desk.step_handed _ m) trail, fun e mem => ?_⟩
      rcases List.mem_cons.1 mem with rfl | mem
      · exact .handed given rfl
      · exact .ensues (ensues e mem)
    · exact trail_still (desk_handle_other n m same)
  | notify t m => exact trail_still (desk_apart n t s fun _ ses _ calls => ses.desk_notify calls m)
  | trigger t m forward =>
    exact trail_enqueue n s t _ fun _ => .ordered given rfl rfl
  | send t m => exact trail_send n s t m fun same => .said (same ▸ given) (same ▸ rfl)
  | deregister t => exact trail_still (desk_deregister n t s)
  | ready t channel tx signedProposal proposal =>
    exact trail_ready n s t channel tx signedProposal proposal fun _ kind =>
      .ordered given rfl (congrArg some kind.symm)
  | poll t c =>
    refine trail_still ?_
    show (n.poll t c).2.desk s = _
    rcases n.poll_cases t c with ⟨_, polls⟩ | ⟨ctx, _, polls⟩
    · rw [polls]
    · rw [polls]
      exact desk_apart n t s fun _ _ _ _ => rfl
  | deleteContext t channel tx => exact trail_still (desk_apart n t s fun _ _ _ _ => rfl)
  | execute t label channel m signedProposal proposal =>
    exact trail_started (started_execute n t label channel m signedProposal proposal) s
      fun _ kind => .ordered given rfl (congrArg some kind.symm)
  | run t label i =>
    exact trail_started (started_run n t label i) s fun _ kind =>
      .ordered given rfl (congrArg some kind.symm)
  | awaitReady t capacity => exact trail_still (desk_apart n t s fun _ _ _ _ => rfl)
  | pollReady t =>
    refine trail_still ?_
    show (n.pollReady t).2.desk s = _
    unfold pollReady
    split
    · exact desk_apart n t s fun _ _ _ _ => rfl
    · rfl
  | dropReady t => exact trail_still (desk_apart n t s fun _ _ _ _ => rfl)
  | registerKey key t =>
    obtain ⟨directory, left⟩ := n.registerKey_eq key t
    refine trail_still ?_
    show (n.registerKey key t).2.desk s = _
    rw [left]
    exact desk_outside rfl rfl s
  | seed channel tx space collection entries =>
    obtain ⟨ledger, left⟩ := n.seed_eq channel tx space collection entries
    refine trail_still ?_
    show (n.seed channel tx space collection entries).2.desk s = _
    rw [left]
    exact desk_outside rfl rfl s
  | deregisterKey | createChannel | gate | ungate => exact trail_still (desk_outside rfl rfl s)
  | pass span => exact absurd rfl (once span)

/-- Whatever happens is a trail at every desk. -/
theorem trail_of_move (built : ∀ a, P a → a.isManned = true) (sound : n.Sound)
    (staffed : ∀ s, n.StaffedAt s) (move : Move P n n') (s : SessionId) :
    ∃ es, Desk.Trail (n.desk s) es (n'.desk s) ∧ ∀ e ∈ es, e.Fits P s n n' := by
  have apart {n' : Node} (h : ∃ es, Desk.Trail (n.desk s) es (n'.desk s) ∧ ∀ e ∈ es, e.Ensues) :
      ∃ es, Desk.Trail (n.desk s) es (n'.desk s) ∧ ∀ e ∈ es, e.Fits P s n n' := by
    obtain ⟨es, trail, ensues⟩ := h
    exact ⟨es, trail, fun e mem => .ensues (ensues e mem)⟩
  have ends (call : Call) (r : Message) :
      ∀ e ∈ (call.origin.asked? s).toList.map (Minute.returned · r), e.Fits P s n n' := by
    intro e mem
    obtain ⟨job, asked, rfl⟩ := List.mem_map.1 mem
    exact .returned fun other => absurd (Origin.kind_of_asked? (Option.mem_toList.1 asked)) other
  cases move with
  | act a given once => exact trail_act a given once (built a given) (staffed s)
  | finish waits finished =>
    obtain ⟨r, trail⟩ := trail_finish? finished sound waits s
    exact ⟨_, trail, ends _ r⟩
  | @command _ t took =>
    by_cases same : t = s
    · subst same
      obtain ⟨es, trail, fits⟩ := trail_command? took sound (staffed t)
      refine ⟨es, trail, fun e mem => ?_⟩
      rcases fits e mem with ⟨c, rfl, informs⟩ | ensues
      · exact .shown took informs
      · exact .ensues ensues
    · exact trail_still (desk_command?_other took same)
  | @work _ t took =>
    by_cases same : t = s
    · subst same
      obtain ⟨es, trail, fits⟩ := trail_work? took (staffed t)
      refine ⟨es, trail, fun e mem => ?_⟩
      rcases fits e mem with ⟨job, rfl | ⟨r, rfl⟩ | rfl, takes, still⟩ | ensues
      · exact .dropped takes
      · exact .answered takes still
      · exact .waits takes
      · exact .ensues ensues
    · exact apart (trail_work?_other took same)
  | @dial t ses m found spawned =>
    by_cases same : t = s
    · subst same
      have takes : TakesUp t ⟨.invoke, m⟩ n (n.dial t m) := .thread found spawned rfl rfl
      obtain ⟨es, trail, serves⟩ := trail_dial found spawned
      refine ⟨es, trail, fun e mem => ?_⟩
      rcases serves e mem with rfl | ⟨r, rfl⟩ | rfl | ensues
      · exact .dropped takes
      · exact .answered takes fun other => absurd rfl other
      · exact .waits takes
      · exact .ensues ensues
    · exact apart (trail_dial_other found same)
  | @resume _ t took =>
    by_cases same : t = s
    · subst same
      obtain ⟨p, _, _, r, step⟩ := trail_resume? took
      exact ⟨[_], .single step, by simpa using .returned fun _ => undisturbed_resume? took⟩
    · exact trail_still (desk_resume?_other took same)
  | @receive _ t took =>
    by_cases same : t = s
    · subst same
      obtain ⟨es, trail, fits⟩ := trail_receive? took (staffed t)
      refine ⟨es, trail, fun e mem => ?_⟩
      rcases fits e mem with ⟨m, rfl⟩ | ensues
      · exact .received took
      · exact .ensues ensues
    · exact trail_still (desk_receive?_other took same)
  | expire waits =>
    obtain ⟨r, trail⟩ := trail_expire sound waits s
    exact ⟨_, trail, ends _ r⟩
  | tick clock => exact trail_still (desk_outside rfl rfl s)

/-! ## Any number of moves -/

/-- A node as it comes about: its contexts are in order, the workers of its sessions are there, and
the markers of its sessions are those of the requests that wait. -/
structure Attended (n : Node) : Prop where
  sound : n.Sound
  staffed : ∀ s, n.StaffedAt s
  marked : ∀ s, (n.desk s).Marked

theorem attended_withChannels (channels historyless system : List String) (drill : Drill) :
    (withChannels channels historyless system drill).Attended where
  sound := sound_withChannels ..
  staffed _ _ := ⟨Nat.zero_lt_succ 3, rfl, .refl _, List.not_mem_nil⟩
  marked _ := ⟨rfl, .nil⟩

section Moves

variable (built : ∀ a, P a → a.isManned = true)

include built

theorem attended_move (attended : n.Attended) (move : Move P n n') : n'.Attended where
  sound := sound_move attended.sound move
  staffed s := by
    obtain ⟨es, trail, _⟩ := trail_of_move built attended.sound attended.staffed move s
    exact (attended.staffed s).steady trail.steady
  marked s := by
    obtain ⟨es, trail, _⟩ := trail_of_move built attended.sound attended.staffed move s
    exact trail.marked (attended.marked s)

theorem attended_moves (attended : n.Attended) (moves : Moves P n n') : n'.Attended := by
  induction moves with
  | refl => exact attended
  | tail _ move ih => exact attended_move built ih move

end Moves

end Node

end ContractNode
