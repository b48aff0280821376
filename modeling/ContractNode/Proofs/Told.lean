import ContractNode.Proofs.Apart

/-!
# What the directory says

Sessions share a directory, in which each is listed under the key of its last registration until it
gives that up, as long as nobody changes the directory past the sessions, or has a session give its
key up while it is being registered.

* `Scene.Enlists`, `Scene.Quits`, `Scene.Latest` : a session is registered, it gives up what it holds,
  and what its last registration was;
* `Scene.GoesBy`, `goesBy_run` : a session goes by its last registration;
* `told_of_stages` : the directory maps keys to sessions as their last registrations say;
* `astray_of_overlap` : otherwise it does not.
-/

namespace ContractNode

namespace Scene

/-- A session is registered, by a move or by the last statement of a registration. -/
inductive Enlists (s : SessionId) (id : ContractId) (x x' : Scene) : Prop
  | move (enlists : x.node.Enlists s id x'.node) (threads : x'.threads = x.threads)
  | establish {i : Nat} {how : Showing}
      (busy : x.threads i = some (.registers s id .establish how))
      (next : x' = x.advance i (.registers s id .establish how))

/-- A session gives up what it holds: it is told to, at once or by a first statement, or it ends. -/
inductive Quits (s : SessionId) (x x' : Scene) : Prop
  | told (deregisters : x'.node = x.node.act (.deregister s))
  | strike {i : Nat} (busy : x.threads i = some (.deregisters s .strike))
      (next : x' = x.advance i (.deregisters s .strike))
  | ended (before : (x.node.roll.standing s).phase ≠ .ended)
      (after : (x'.node.roll.standing s).phase = .ended)

/-- The last registration of a session before a point of a run is under an identity, and the session
has not given it up since. -/
def Latest (run : Nat → Scene) (s : SessionId) (id : ContractId) (i : Nat) : Prop :=
  Since (fun j id => Enlists s id (run j) (run (j + 1))) (fun j => Quits s (run j) (run (j + 1))) id i

/-- A session is registered under an identity. -/
structure GoesBy (x : Scene) (s : SessionId) (id : ContractId) : Prop where
  goes : x.node.GoesBy s id
  live : (x.node.roll.standing s).phase = .established ∨ (x.node.roll.standing s).phase = .ready

/-- No thread is in the middle of anything about a session. -/
def Rests (x : Scene) (s : SessionId) : Prop := ∀ i th, x.threads i = some th → th.session ≠ s

variable {P : Act → Prop} {x x' : Scene} {s t : SessionId} {id : ContractId} {i : Nat} {th : Thread}

theorem rests_still (n : Node) (s : SessionId) : (still n).Rests s := by
  rintro i th busy
  cases busy

/-! ## What is done to one session -/

/-- What one thing that happens does to a session: nothing, or it is registered, or it becomes
ready, or it is still being registered, or it gives up what it held. -/
inductive Turned (s : SessionId) (x x' : Scene) : Prop
  | kept (same : x'.node.roll.standing s = x.node.roll.standing s)
  | enlisted {id : ContractId} (enlists : Enlists s id x x')
  | readied (established : (x.node.roll.standing s).phase = .established)
      (same : x'.node.roll.standing s = { x.node.roll.standing s with phase := .ready })
  | begun (before : (x.node.roll.standing s).phase = .created)
      (after : (x'.node.roll.standing s).phase = .created)
  | left (off : (x'.node.roll.standing s).isRegistered = false ∨
        (x'.node.roll.standing s).phase = .ended)
      (quits : ∀ id, x.GoesBy s id → Quits s x x')

/-- Until a session is established, it does not get on in its life. -/
theorem phase_joining {e : Joining} (n : Node) (s : SessionId) (id : ContractId)
    (early : e ≠ .establish) :
    ((e.next n s id).1.roll.standing s).phase = (n.roll.standing s).phase := by
  have modified (f : Session → Session) (same : ∀ ses, (f ses).phase = ses.phase) :
      ((n.modify s f).roll.standing s).phase = (n.roll.standing s).phase := by
    cases found : n.session? s with
    | none =>
      rw [Node.standing_of_missing found, Node.standing_of_missing]
      rw [Node.session?_modify_if, found]
      split <;> rfl
    | some ses =>
      rw [Node.roll_standing found, Node.standing_of_found found]
      exact same ses
  cases e with
  | flag | identity | place => exact modified _ fun _ => rfl
  | tell =>
    simp only [Joining.next]
    rcases n.send_cases s { kind := .registered } with ⟨e, sent⟩ | ⟨ses, link, _, found, sent⟩
    · rw [sent]
    · rw [sent]
      exact modified _ fun _ => rfl
  | establish => exact absurd rfl early
  | undo l =>
    obtain ⟨isRegistered, standing⟩ := n.standing_leaving s l
    show ((l.next n s).1.roll.standing s).phase = _
    rw [standing]

theorem off_strike (n : Node) (s : SessionId) :
    ((Leaving.strike.next n s).1.roll.standing s).isRegistered = false := by
  simp only [Leaving.next]
  split
  · rename_i on
    obtain ⟨ses, found, _⟩ := (Option.any_eq_true ..).1 on
    rw [Node.roll_standing found]
    rfl
  · rename_i off
    cases found : n.session? s with
    | none => rw [Node.standing_of_missing found]
    | some ses =>
      rw [found] at off
      rw [Node.standing_of_found found]
      exact Bool.eq_false_iff.2 off

theorem node_registers (n : Node) (s : SessionId) (id : ContractId) (e : Joining) (how : Showing) :
    ((Thread.registers s id e how).next n).1 = (e.next n s id).1 := by
  simp only [Thread.next]
  rcases e.next n s id with ⟨n', _ | e'⟩ <;> rfl

theorem turned_next (h : x.Fair) (busy : x.threads i = some th) (s : SessionId) :
    Turned s x (x.advance i th) := by
  by_cases here : th.session = s
  · subst here
    cases th with
    | registers s id e how =>
      by_cases last : e = .establish
      · subst last
        exact .enlisted (.establish busy rfl)
      · have created := ((h.tenure s).of_registers busy).1
        refine .begun created ?_
        show (((Thread.registers s id e how).next x.node).1.roll.standing s).phase = _
        rw [node_registers, phase_joining _ _ _ last, created]
    | follows s how => exact .kept (congrArg (·.standing s) (roll_follows x.node s how))
    | deregisters s l =>
      cases l with
      | strike => exact .left (.inl (off_strike x.node s)) fun _ _ => .strike busy rfl
      | look | vacate => exact .kept rfl
  · exact .kept ((Node.stated_next x.node th).standing here)

theorem GoesBy.not_ended (goes : x.GoesBy s id) : (x.node.roll.standing s).phase ≠ .ended := by
  intro ended
  rcases goes.live with phase | phase <;> cases ended.symm.trans phase

theorem turned_stage (bySession : ∀ a, P a → a.isByHand = false) (h : x.Fair)
    (stage : Stage P x x') (s : SessionId) : Turned s x x' := by
  cases stage with
  | move move spares =>
    by_cases held : Held x.threads s
    · exact .kept (spares s held).standing
    · have new (created : (x.node.roll.standing s).phase = .created) :
          (x.node.roll.standing s).isRegistered = false :=
        ((h.tenure s).out_of_created held created).1
      cases Node.turned_move bySession new move with
      | kept same => exact .kept same
      | enlisted enlists => exact .enlisted (.move enlists rfl)
      | readied established same => exact .readied established same
      | left off quits =>
        refine .left (.inl off) fun id goes => ?_
        rcases quits goes.goes.1 goes.not_ended with rfl | ⟨before, after⟩
        · exact .told rfl
        · exact .ended before after
  | told => exact .kept rfl
  | @halts i t n' halts =>
    obtain ⟨m, r, shown, roll⟩ := Node.roll_halts halts
    by_cases here : t = s
    · subst here
      have ended : (n'.roll.standing t).phase = .ended := by rw [roll, Roll.standing_put_self]
      exact .left (.inr ended) fun id goes => .ended goes.not_ended ended
    · refine .kept ?_
      show n'.roll.standing s = _
      rw [roll, Roll.standing_put_other _ here, Roll.standing_shown_other shown here]
  | lists fetches => exact .kept (congrArg (·.standing s) (roll_fetches fetches))
  | next busy => exact turned_next h busy s

/-- A session that gives up what it holds is not registered. -/
theorem Quits.not_goesBy (quits : Quits s x x') (id : ContractId) : ¬ x'.GoesBy s id := by
  have off (off : (x'.node.roll.standing s).isRegistered = false) : ¬ x'.GoesBy s id := by
    intro goes
    cases off.symm.trans goes.goes.1
  cases quits with
  | told deregisters =>
    refine off ?_
    have same : (x.node.act (.deregister s)).roll = x.node.roll.withdraw s :=
      Node.roll_deregister x.node s
    rw [deregisters, same, Roll.standing_withdraw]
  | strike busy next =>
    subst next
    exact off (off_strike x.node s)
  | ended _ after => exact fun goes => goes.not_ended after

theorem Enlists.created (h : x.Fair) (enlists : Enlists s id x x') :
    (x.node.roll.standing s).phase = .created := by
  cases enlists with
  | move enlists => exact enlists.created
  | establish busy => exact ((h.tenure s).of_registers busy).1

/-- A session that is registered goes by the identity that its contract stated. -/
theorem Enlists.goesBy (h : x.Fair) (enlists : Enlists s id x x') : x'.GoesBy s id := by
  cases enlists with
  | move enlists =>
    refine ⟨?_, .inl enlists.established⟩
    unfold Node.GoesBy
    rw [enlists.standing]
    exact ⟨rfl, rfl⟩
  | @establish i how busy next =>
    subst next
    obtain ⟨ses, found⟩ := h.opened s ⟨i, id, .establish, how, busy⟩
    obtain ⟨_, knows, _⟩ := (h.tenure s).of_registers busy
    have announced : (x.node.modify s Session.announce).roll = x.node.roll :=
      (Node.Steady.modify x.node s fun ses _ => ses.talks_announce.steady).roll
    have standing : ((x.advance i (.registers s id .establish how)).node.roll.standing s) =
        { x.node.roll.standing s with phase := .established } := by
      show (((x.node.modify s Session.announce).setPhase s .established).roll.standing s) = _
      rw [Node.roll_setPhase announced (Node.session?_modify found), Roll.standing_put_self]
    refine ⟨?_, .inl (by rw [standing])⟩
    unfold Node.GoesBy
    rw [standing]
    exact ⟨knows.1, knows.2.1⟩

theorem GoesBy.not_enlists (goes : x.GoesBy s id) (h : x.Fair) (id' : ContractId) :
    ¬ Enlists s id' x x' := by
  intro enlists
  have created := enlists.created h
  rcases goes.live with phase | phase <;> cases created.symm.trans phase

/-- After something happened a session is registered under an identity if it is registered under
that one by what happened, or was before and has not given it up. -/
theorem goesBy_stage (bySession : ∀ a, P a → a.isByHand = false) (h : x.Fair)
    (stage : Stage P x x') (s : SessionId) (id : ContractId) :
    x'.GoesBy s id ↔ Enlists s id x x' ∨ x.GoesBy s id ∧ ¬ Quits s x x' := by
  have turned := turned_stage bySession h stage s
  constructor
  · intro goes
    have stays : ¬ Quits s x x' := fun quits => quits.not_goesBy id goes
    cases turned with
    | kept same =>
      refine .inr ⟨⟨?_, same ▸ goes.live⟩, stays⟩
      have goes' := goes.goes
      unfold Node.GoesBy at goes' ⊢
      rwa [same] at goes'
    | @enlisted id' enlists =>
      have identity := (enlists.goesBy h).goes.2
      rw [goes.goes.2] at identity
      cases identity
      exact .inl enlists
    | readied established same =>
      refine .inr ⟨⟨?_, .inl established⟩, stays⟩
      have goes' := goes.goes
      unfold Node.GoesBy at goes' ⊢
      rwa [same] at goes'
    | begun _ after =>
      rcases goes.live with phase | phase <;> cases after.symm.trans phase
    | left off =>
      rcases off with off | ended
      · cases off.symm.trans goes.goes.1
      · exact absurd ended goes.not_ended
  · rintro (enlists | ⟨goes, stays⟩)
    · exact enlists.goesBy h
    · cases turned with
      | kept same =>
        refine ⟨?_, same ▸ goes.live⟩
        unfold Node.GoesBy
        rw [same]
        exact goes.goes
      | enlisted enlists => exact absurd enlists (goes.not_enlists h _)
      | readied _ same =>
        refine ⟨?_, .inr (by rw [same])⟩
        unfold Node.GoesBy
        rw [same]
        exact goes.goes
      | begun created =>
        rcases goes.live with phase | phase <;> cases created.symm.trans phase
      | left _ quits => exact absurd (quits id goes) stays

/-! ## Runs -/

variable {run : Nat → Scene}

theorem fair_run (bySession : ∀ a, P a → a.isByHand = false) (start : (run 0).Fair)
    (stages : ∀ j < i, Stage P (run j) (run (j + 1))) (apart : ∀ j < i, (run j).Apart) :
    (run i).Fair := by
  induction i with
  | zero => exact start
  | succ i ih =>
    have fair := ih (fun j before => stages j (Nat.lt_succ_of_lt before))
      fun j before => apart j (Nat.lt_succ_of_lt before)
    exact fair_stage bySession fair (apart i (Nat.lt_succ_self i)) (stages i (Nat.lt_succ_self i))

/-- A session is registered under the identity of its last registration, until it gives that up. -/
theorem goesBy_run (bySession : ∀ a, P a → a.isByHand = false) (start : (run 0).Fair)
    (blank : ∀ s, ((run 0).node.roll.standing s).isRegistered = false)
    (stages : ∀ j < i, Stage P (run j) (run (j + 1))) (apart : ∀ j < i, (run j).Apart)
    (s : SessionId) (id : ContractId) : (run i).GoesBy s id ↔ Latest run s id i := by
  have fair (j : Nat) (before : j < i) : (run j).Fair :=
    fair_run bySession start (fun l earlier => stages l (by omega)) fun l earlier =>
      apart l (by omega)
  refine holds_iff_since (fun j id => (run j).GoesBy s id) (fun id goes => ?_)
    (fun j before => goesBy_stage bySession (fair j before) (stages j before) s)
    (fun j before _ id' goes => goes.not_enlists (fair j before) id') id
  have on := goes.goes.1
  rw [blank s] at on
  cases on

/-- When no thread is in the middle of anything about a session, the directory lists it under the
key of the identity it is registered under, or not at all. -/
theorem Fair.listed_iff (h : x.Fair) (rests : x.Rests s) (k : String) :
    x.node.directory.get? k = some s ↔
      ∃ id, (ContractInstance.ofName id.name).key = k ∧ x.GoesBy s id := by
  cases h.tenure s with
  | out off none =>
    constructor
    · intro entry
      exact absurd entry (none k)
    · rintro ⟨id, _, goes⟩
      cases off.symm.trans goes.goes.1
  | @within id on identity place entries live =>
    refine (entries k).trans ⟨fun key => ⟨id, key, ⟨on, identity⟩, ?_⟩, ?_⟩
    · rcases live with live | live | ⟨_, j, due⟩
      · exact .inl live
      · exact .inr live
      · exact absurd rfl (rests j _ due)
    · rintro ⟨id', key, goes⟩
      cases identity.symm.trans goes.goes.2
      exact key
  | entering busy => exact absurd rfl (rests _ _ busy)
  | leaving busy => exact absurd rfl (rests _ _ busy)

/-- No session is listed under two keys, even in the middle of a registration. -/
theorem Fair.single (h : x.Fair) {k k' : String} (entry : x.node.directory.get? k = some s)
    (entry' : x.node.directory.get? k' = some s) : k = k' := by
  cases h.tenure s with
  | out _ none => exact absurd entry (none k)
  | within _ _ _ entries => exact ((entries k).1 entry).symm.trans ((entries k').1 entry')
  | entering _ _ _ entries => exact ((entries k).1 entry).symm.trans ((entries k').1 entry')
  | leaving _ _ _ _ entries => exact ((entries k).1 entry).symm.trans ((entries k').1 entry')

/-- What takes an entry of a session: a thread of its own goes on, it is told to give its key up, or
it has ended. -/
inductive Yields (s : SessionId) (x x' : Scene) : Prop
  | own {i : Nat} {th : Thread} (busy : x.threads i = some th) (its : th.session = s)
      (next : x' = x.advance i th)
  | told (deregisters : x'.node = x.node.act (.deregister s))
  | ended (after : (x'.node.roll.standing s).phase = .ended)

theorem yields_of_gone (bySession : ∀ a, P a → a.isByHand = false) (h : x.Fair) (apart : x.Apart)
    (stage : Stage P x x') {k : String} (entry : x.node.directory.get? k = some s)
    (gone : x'.node.directory.get? k ≠ some s) : Yields s x x' := by
  cases stage with
  | @move n' move spares =>
    have ended {t : SessionId} {r : Roll} (here : t = s) (roll : n'.roll = r.finish t) :
        Yields s x ⟨n', x.threads⟩ := by
      refine .ended ?_
      show (n'.roll.standing s).phase = _
      rw [roll, here, Roll.standing_finish]
    cases moved_move bySession h move spares with
    | same roll => exact absurd ((congrArg (·.directory.get? k) roll).trans entry) gone
    | @shown t m r free shown roll =>
      have still : r.directory.get? k = some s := by
        by_cases here : t = s
        · exact here ▸ (h.tenure t).entry_shown free shown (here ▸ entry)
        · exact (((h.tenure t).shown free shown).2 s here k).2 entry
      rcases roll with roll | roll
      · exact absurd ((congrArg (·.directory.get? k) roll).trans still) gone
      · by_cases here : t = s
        · exact ended here roll
        · have kept := ((((h.tenure t).shown free shown).1.finish free).2 s here k).2 still
          exact absurd ((congrArg (·.directory.get? k) roll).trans kept) gone
    | @told t free deregisters =>
      by_cases here : t = s
      · exact .told (here ▸ deregisters)
      · have roll : (x.node.act (.deregister t)).roll = x.node.roll.withdraw t :=
          Node.roll_deregister x.node t
        have kept := (((h.tenure t).withdraw free).2 s here k).2 entry
        exact absurd ((congrArg (·.roll.directory.get? k) deregisters).trans
          ((congrArg (·.directory.get? k) roll).trans kept)) gone
    | @ended t free roll =>
      by_cases here : t = s
      · exact ended here roll
      · have kept := (((h.tenure t).finish free).2 s here k).2 entry
        exact absurd ((congrArg (·.directory.get? k) roll).trans kept) gone
  | told => exact absurd entry gone
  | @halts i t n' halts free =>
    obtain ⟨m, r, shown, roll⟩ := Node.roll_halts halts
    by_cases here : t = s
    · refine .ended ?_
      show (n'.roll.standing s).phase = _
      rw [roll, here, Roll.standing_put_self]
    · have kept := (((h.tenure t).shown free shown).2 s here k).2 entry
      exact absurd ((congrArg (·.directory.get? k) roll).trans kept) gone
  | @lists i t m how n' ses id d fetches free idle found created _ _ vacant =>
    have same : n'.roll = x.node.roll := roll_fetches fetches
    have entry' : n'.directory.get? k = some s :=
      (congrArg (·.directory.get? k) same).trans entry
    have taken : (ContractInstance.ofName id.name).key ≠ k := by
      rintro rfl
      cases (Directory.get?_of_register vacant).symm.trans entry'
    refine absurd ?_ gone
    show d.get? k = some s
    rw [Directory.get?_register vacant, if_neg taken]
    exact entry'
  | @next i th busy =>
    by_cases here : th.session = s
    · exact .own busy here rfl
    · exact absurd ((entries_next h apart busy s here k).2 entry) gone

/-- What the directory and the sessions are at a point of a run. When no thread is in the middle of
anything about a session, the directory maps a key to the session if that is the key of the last
identity under which it was registered, and it has not given it up; it is `established` or `ready`
then. No session holds two keys. One that is `established` or `ready` has its identity stored, and
the instance that its name denotes. -/
structure Told (run : Nat → Scene) (i : Nat) : Prop where
  entries : ∀ s, (run i).Rests s → ∀ k, (run i).node.directory.get? k = some s ↔
    ∃ id, (ContractInstance.ofName id.name).key = k ∧ Latest run s id i
  single : ∀ k k' s, (run i).node.directory.get? k = some s →
    (run i).node.directory.get? k' = some s → k = k'
  live : ∀ s, (run i).Rests s → ∀ k, (run i).node.directory.get? k = some s →
    ∃ ses, (run i).node.session? s = some ses ∧ (ses.phase = .established ∨ ses.phase = .ready)
  stored : ∀ s ses, (run i).node.session? s = some ses →
    ses.phase = .established ∨ ses.phase = .ready →
      ∃ id, ses.identity = some id ∧ ses.place = some (ContractInstance.ofName id.name)

/-- However sessions register, are refused, cannot be told, give up their keys and end, and whatever
happens between the statements of that, the directory they share says as what each was last
registered, as long as nobody changes it past the sessions, or has a session give its key up while it
is being registered. An entry goes only by what is done about the session that holds it. -/
theorem told_of_stages (bySession : ∀ a, P a → a.isByHand = false)
    {channels historyless system : List String} {drill : Drill}
    (start : run 0 = still (Node.withChannels channels historyless system drill))
    (stages : ∀ j < i, Stage P (run j) (run (j + 1))) (apart : ∀ j ≤ i, (run j).Apart) :
    Told run i ∧ ∀ x' k s, Stage P (run i) x' → (run i).node.directory.get? k = some s →
      x'.node.directory.get? k ≠ some s → Yields s (run i) x' := by
  have fair₀ : (run 0).Fair := start ▸ fair_still (Node.fair_withChannels ..)
  have blank (s : SessionId) : ((run 0).node.roll.standing s).isRegistered = false := by
    rw [start]
    rfl
  have apart' (j : Nat) (before : j < i) : (run j).Apart := apart j (Nat.le_of_lt before)
  have fair : (run i).Fair := fair_run bySession fair₀ stages apart'
  refine ⟨⟨fun s rests k => ?_, fun k k' s => fair.single, fun s rests k entry => ?_,
    fun s ses found phase => ?_⟩, fun x' k s stage => yields_of_gone bySession fair
      (apart i (Nat.le_refl i)) stage⟩
  · rw [fair.listed_iff rests]
    simp only [goesBy_run bySession fair₀ blank stages apart']
  · obtain ⟨id, _, goes⟩ := (fair.listed_iff rests k).1 entry
    obtain ⟨ses, found, same⟩ := Node.found_of_live (n := (run i).node) (s := s) (by
      rcases goes.live with phase | phase
      all_goals
        rw [phase]
        exact nofun)
    have live := goes.live
    rw [same] at live
    exact ⟨ses, found, live⟩
  · have identified := fair.identified s
    rw [Node.standing_of_found found] at identified
    exact identified phase

/-- A contract registers on two sessions. It is refused on the second until the first has given its
key up; that the first gives it up once more does not take it from the second. -/
def takingOver : List Act :=
  let m : Message :=
    { kind := .register, payload := ContractId.codec.encode { name := "cc:1" } }
  [.openSession {} {} .directory, .openSession {} {} .directory, .handle 0 m, .handle 1 m,
    .deregister 0, .handle 1 m, .deregister 0]

theorem told_of_stages_takingOver :
    let run := fun j =>
      still ((takingOver.take j).foldl Node.act (Node.withChannels ["ch"] [] [] {}))
    Told run 7 ∧ (run 4).node.directory.get? "cc:1" = some 0 ∧
      (run 7).node.directory.get? "cc:1" = some 1 ∧
        ∃ id, (ContractInstance.ofName id.name).key = "cc:1" ∧ Latest run 1 id 7 := by
  intro run
  have given : ∀ a ∈ takingOver, a.isByHand = false ∧ ∀ span, a ≠ .pass span := by
    simp [takingOver, Act.isByHand]
  have start : run 0 = still (Node.withChannels ["ch"] [] [] {}) := rfl
  have stages (j : Nat) (before : j < 7) : Stage (·.isByHand = false) (run j) (run (j + 1)) :=
    .move (Node.move_acts given before _) fun s held => absurd held (not_held_still _ s)
  have apart (j : Nat) (_ : j ≤ 7) : (run j).Apart := fun s _ _ _ => not_held_still _ s
  obtain ⟨told, _⟩ := told_of_stages (fun _ => id) start stages apart
  have entry : (run 7).node.directory.get? "cc:1" = some 1 := by decide +kernel
  have first : (run 4).node.directory.get? "cc:1" = some 0 := by decide +kernel
  exact ⟨told, first, entry, (told.entries 1 (rests_still _ 1) _).1 entry⟩

/-! ## Overlaps -/

/-- A thread goes on, if it is in the middle of anything. -/
def go (x : Scene) (i : Nat) : Scene :=
  match x.threads i with
  | none => x
  | some th => x.advance i th

theorem stages_go (x : Scene) (l : List Nat) : Stages P x (l.foldl go x) := by
  induction l generalizing x with
  | nil => exact .refl
  | cons i l ih =>
    refine .trans ?_ (ih _)
    unfold go
    split
    · exact .refl
    · rename_i busy
      exact .single (.next busy)

theorem threads_go (x : Scene) (l : List Nat) {j : Nat} (none : x.threads j = none) :
    (l.foldl go x).threads j = Option.none := by
  induction l generalizing x with
  | nil => exact none
  | cons i l ih =>
    refine ih _ ?_
    unfold go
    split
    · exact none
    · rename_i busy
      refine (Function.update_of_ne ?_ ..).trans none
      rintro rfl
      cases none.symm.trans busy

def opened : Node :=
  [Act.openSession {} {} .directory, .start 0].foldl Node.act (Node.withChannels ["ch"] [] [] {})

def registering : Scene :=
  let d := (opened.directory.register "cc" 0).toOption.getD opened.directory
  (still opened).set 0 { opened with directory := d }
    (some (.registers 0 { name := "cc" } .flag .handed))

/-- The session is told to give its key up when it takes itself to be registered, but does not know
its name yet. -/
def overlapping : Scene :=
  let x := registering.go 0
  [1, 1, 0, 0, 0, 0, 0].foldl go (x.set 1 x.node (some (.deregisters 0 .strike)))

/-- The contract of the session goes after that. -/
def overlapped : Node :=
  ((overlapping.node.act (.contractCloses 0)).receive? 0).getD overlapping.node

theorem still_overlapping : overlapping = still overlapping.node := by
  have threads (j : Nat) : overlapping.threads j = none := by
    by_cases first : j = 0
    · subst first
      decide +kernel
    by_cases second : j = 1
    · subst second
      decide +kernel
    refine threads_go _ _ ?_
    refine (Function.update_of_ne second ..).trans (threads_go registering [0] ?_)
    exact Function.update_of_ne first ..
  show overlapping = ⟨overlapping.node, fun _ => none⟩
  rw [← funext threads]

theorem stages_overlapping :
    Stages (·.isByHand = false) (still (Node.withChannels ["ch"] [] [] {})) overlapping := by
  have given (a : Act) (mem : a ∈ [Act.openSession {} {} .directory, .start 0]) :
      a.isByHand = false ∧ ∀ span, a ≠ .pass span := by
    simp only [List.mem_cons, List.not_mem_nil, or_false] at mem
    rcases mem with rfl | rfl
    · exact ⟨rfl, nofun⟩
    · exact ⟨rfl, nofun⟩
  have opens : Node.Moves (·.isByHand = false) (Node.withChannels ["ch"] [] [] {}) opened :=
    .tail (.single (Node.move_acts given (j := 0) (by decide) _))
      (Node.move_acts given (j := 1) (by decide) _)
  have registers : Stage (·.isByHand = false) (still opened) registering := by
    have there : (opened.session? 0).any (·.phase == .created) = true := by decide +kernel
    obtain ⟨ses, found, created⟩ := (Option.any_eq_true ..).1 there
    have vacant : (opened.directory.register "cc" 0).toOption.isSome = true := by decide +kernel
    have decoded : ContractId.codec.decode (ContractId.codec.encode { name := "cc" }) =
        .ok { name := "cc" } := by rfl
    refine .lists (m := { kind := .register, payload := ContractId.codec.encode { name := "cc" } })
      (.handed rfl) (not_held_still opened 0) rfl found (beq_iff_eq.1 created) rfl decoded ?_
    show opened.directory.register "cc" 0 = _
    cases taken : opened.directory.register "cc" 0 with
    | error e =>
      rw [taken] at vacant
      cases vacant
    | ok d => rfl
  have tells : Stage (·.isByHand = false) (registering.go 0)
      ((registering.go 0).set 1 (registering.go 0).node (some (.deregisters 0 .strike))) := by
    have idle : registering.threads 1 = none := by decide +kernel
    exact .told rfl (threads_go registering [0] idle)
  have goes := (stages_of_moves opens).tail registers
  exact ((goes.trans (stages_go registering [0])).tail tells).trans (stages_go _ _)

/-- The session keeps its key for good, also when it has ended. -/
theorem stages_overlapped :
    Stages (·.isByHand = false) (still (Node.withChannels ["ch"] [] [] {})) (still overlapped) ∧
      (overlapped.session? 0).map (·.phase) = some .ended ∧
        overlapped.directory.get? "cc" = some 0 := by
  refine ⟨?_, by decide +kernel, by decide +kernel⟩
  have there : ((overlapping.node.act (.contractCloses 0)).receive? 0).isSome = true := by
    decide +kernel
  obtain ⟨n, took⟩ := Option.isSome_iff_exists.1 there
  have same : overlapped = n := by
    unfold overlapped
    rw [took]
    rfl
  have closes : Node.Move (·.isByHand = false) overlapping.node
      (overlapping.node.act (.contractCloses 0)) := .act _ rfl nofun
  have ends : Node.Moves (·.isByHand = false) overlapping.node n :=
    .tail (.single closes) (.receive took)
  rw [same]
  refine stages_overlapping.trans ?_
  have later := stages_of_moves ends
  rwa [← still_overlapping] at later

/-- The key of a session is taken from it past the session, and goes to another one. -/
def evicting : List Act :=
  let m : Message := { kind := .register, payload := ContractId.codec.encode { name := "cc" } }
  [.openSession {} {} .directory, .start 0, .contractSends 0 m, .deregisterKey "cc",
    .openSession {} {} .directory, .start 1, .contractSends 1 m, .contractCloses 0]

/-- A session whose key was taken from it past the session takes it from another one when it ends.
One that is told to give its key up while it is being registered is listed for good. -/
theorem astray_of_overlap :
    (∃ n, n = (Node.withChannels ["ch"] [] [] {}).steps evicting ∧
      (n.session? 1).map (fun ses => (ses.phase, ses.isRegistered)) = some (.ready, true) ∧
        n.directory.get? "cc" = none) ∧
    ∃ n, Stages (·.isByHand = false) (still (Node.withChannels ["ch"] [] [] {})) (still n) ∧
      (n.session? 0).map (·.phase) = some .ended ∧ n.directory.get? "cc" = some 0 :=
  ⟨⟨_, rfl, by decide +kernel, by decide +kernel⟩, overlapped, stages_overlapped⟩

end Scene

end ContractNode
