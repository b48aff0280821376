import ContractNode.Proofs.Roll

/-!
# Who is listed in the directory

Sessions share a directory, in which each takes a key when its contract registers and gives it up
when it is told to or ends.

* `Roll.Fair` : the directory lists the sessions that take themselves to be registered, each under
  the key of the identity its contract stated, and no others (`fair_move`);
* `Since` : what happened last, if it has not been undone;
* `Enlists`, `Quits`, `Latest` : a move by which a session is registered, one by which it gives up
  what it holds, and what its last registration was at a point of a run;
* `goesBy_run`, `listed_iff` : sessions go by their last registrations, and the directory lists them
  by these.
-/

namespace ContractNode

namespace Standing

/-- A session takes itself to be registered under a key. -/
def Holds (st : Standing) (k : String) : Prop :=
  st.isRegistered = true ∧ ∃ i, st.place = some i ∧ i.key = k

/-- What a session is registered as is kept: the identity that its contract stated, and the parts of
its name. -/
def Identified (st : Standing) : Prop :=
  ∃ id, st.identity = some id ∧ st.place = some (ContractInstance.ofName id.name)

/-- A session that is past `created` and has not ended is identified, and only such a session is
registered. -/
structure Timely (st : Standing) : Prop where
  live : st.isRegistered = true → st.phase = .established ∨ st.phase = .ready
  identified : st.phase = .established ∨ st.phase = .ready → st.Identified

theorem Timely.holds {st : Standing} (h : st.Timely) (on : st.isRegistered = true) :
    ∃ id, st.identity = some id ∧ st.place = some (ContractInstance.ofName id.name) ∧
      st.Holds (ContractInstance.ofName id.name).key := by
  obtain ⟨id, identity, place⟩ := h.identified (h.live on)
  exact ⟨id, identity, place, on, _, place, rfl⟩

end Standing

namespace Roll

variable {r r' : Roll} {s t : SessionId} {m : Message}

/-- The directory lists those who take themselves to be registered, and no others. -/
def Listed (r : Roll) : Prop := ∀ k s, r.directory.get? k = some s ↔ (r.standing s).Holds k

/-- The directory lists those who take themselves to be registered, as what their contracts stated
and at the time they may be. -/
structure Fair (r : Roll) : Prop where
  listed : r.Listed
  timely : ∀ s, (r.standing s).Timely

/-! ## Rolls stay fair -/

theorem Listed.put (h : r.Listed) {st : Standing} (same : ∀ k, st.Holds k ↔ (r.standing s).Holds k) :
    (r.put s st).Listed := by
  intro k t
  rw [directory_put, h k t]
  by_cases other : s = t
  · subst other
    rw [standing_put_self, same]
  · rw [standing_put_other _ other]

/-- Two sessions do not hold the same key. -/
theorem Listed.unique (h : r.Listed) {k : String} (holds : (r.standing s).Holds k)
    (holds' : (r.standing t).Holds k) : s = t :=
  Option.some.inj (((h k s).2 holds).symm.trans ((h k t).2 holds'))

theorem Listed.withdraw (h : r.Listed) (s : SessionId)
    (identified : (r.standing s).isRegistered = true → ∃ i, (r.standing s).place = some i) :
    (r.withdraw s).Listed := by
  by_cases on : (r.standing s).isRegistered = true
  · obtain ⟨i, place⟩ := identified on
    have holds : (r.standing s).Holds i.key := ⟨on, i, place, rfl⟩
    have directory : (r.withdraw s).directory = r.directory.deregister i.key := by
      unfold Roll.withdraw
      rw [if_pos on, directory_put, place]
      rfl
    intro k t
    rw [directory, Directory.get?_deregister]
    by_cases same : s = t
    · subst same
      rw [standing_withdraw]
      constructor
      · intro entry
        split at entry
        · cases entry
        · rename_i other
          obtain ⟨_, i', place', key⟩ := (h k s).1 entry
          rw [place] at place'
          cases place'
          exact absurd key other
      · rintro ⟨off, _⟩
        cases off
    · rw [standing_withdraw_other r same]
      constructor
      · intro entry
        split at entry
        · cases entry
        · exact (h k t).1 entry
      · intro holds'
        rw [if_neg, (h k t).2 holds']
        rintro rfl
        exact same (h.unique holds holds')
  · unfold Roll.withdraw
    rw [if_neg on]
    exact h

/-- A session that holds nothing takes a key that is free. -/
theorem Listed.enlist (h : r.Listed) (off : (r.standing s).isRegistered = false) {id : ContractId}
    {d : Directory}
    (free : r.directory.register (ContractInstance.ofName id.name).key s = .ok d) (phase : Phase) :
    (r.enlist s phase id d).Listed := by
  have none := Directory.get?_of_register free
  intro k t
  unfold Roll.enlist
  rw [directory_put]
  show d.get? k = some t ↔ _
  rw [Directory.get?_register free]
  by_cases same : s = t
  · subst same
    rw [standing_put_self]
    constructor
    · intro entry
      split at entry
      · rename_i key
        exact ⟨rfl, _, rfl, key⟩
      · have on := ((h k s).1 entry).1
        rw [off] at on
        cases on
    · rintro ⟨_, i, place, key⟩
      cases place
      rw [if_pos key]
  · rw [standing_put_other _ same]
    constructor
    · intro entry
      split at entry
      · exact absurd (Option.some.inj entry) same
      · exact (h k t).1 entry
    · intro holds
      have entry := (h k t).2 holds
      rw [if_neg, entry]
      rintro rfl
      rw [none] at entry
      cases entry

theorem Fair.place (h : r.Fair) (on : (r.standing s).isRegistered = true) :
    ∃ i, (r.standing s).place = some i := by
  obtain ⟨id, _, place⟩ := (h.timely s).identified ((h.timely s).live on)
  exact ⟨_, place⟩

/-- A session that is still `created` is not registered. -/
theorem Fair.off (h : r.Fair) (created : (r.standing s).phase = .created) :
    (r.standing s).isRegistered = false := by
  apply Bool.eq_false_iff.2
  intro on
  rcases (h.timely s).live on with phase | phase
  all_goals
    rw [created] at phase
    cases phase

/-- Standings stay timely if that of one session does, and no other changes. -/
theorem Fair.timely_of (h : r.Fair) (others : ∀ t, s ≠ t → r'.standing t = r.standing t)
    (timely : (r'.standing s).Timely) (t : SessionId) : (r'.standing t).Timely := by
  by_cases same : s = t
  · exact same ▸ timely
  · rw [others t same]
    exact h.timely t

theorem Fair.withdraw (h : r.Fair) (s : SessionId) : (r.withdraw s).Fair := by
  refine ⟨h.listed.withdraw s h.place,
    h.timely_of (s := s) (fun t other => standing_withdraw_other r other) ?_⟩
  rw [standing_withdraw]
  exact ⟨fun on => absurd on Bool.false_ne_true, (h.timely s).identified⟩

theorem Fair.finish (h : r.Fair) (s : SessionId) : (r.finish s).Fair := by
  refine ⟨(h.withdraw s).listed.put fun k => Iff.rfl,
    h.timely_of (s := s) (fun t other => standing_finish_other r other) ?_⟩
  rw [standing_finish]
  refine ⟨fun on => absurd on Bool.false_ne_true, ?_⟩
  rintro (phase | phase)
  · cases phase
  · cases phase

theorem Fair.shown (h : r.Fair) (shown : r.Shown s m r') : r'.Fair := by
  refine ⟨?_, h.timely_of (s := s) (fun t other => standing_shown_other shown other) ?_⟩
  · cases shown with
    | ignored => exact h.listed
    | enlisted created _ _ free => exact h.listed.enlist (h.off created) free .established
    | @untold id d created free =>
      refine (h.listed.enlist (h.off created) free .created).withdraw s fun _ => ?_
      unfold Roll.enlist
      rw [standing_put_self]
      exact ⟨_, rfl⟩
    | readied => exact h.listed.put fun k => Iff.rfl
  · cases shown with
    | ignored => exact h.timely s
    | @enlisted id d =>
      unfold Roll.enlist
      rw [standing_put_self]
      exact ⟨fun _ => .inl rfl, fun _ => ⟨id, rfl, rfl⟩⟩
    | @untold id d =>
      rw [standing_withdraw]
      unfold Roll.enlist
      rw [standing_put_self]
      refine ⟨fun on => absurd on Bool.false_ne_true, ?_⟩
      rintro (phase | phase)
      · cases phase
      · cases phase
    | readied established =>
      rw [standing_put_self]
      exact ⟨fun _ => .inr rfl, fun _ => (h.timely s).identified (.inl established)⟩

end Roll

/-! ## What happened last -/

/-- What happened last before a point of a run, if it has not been undone since. -/
def Since {α : Type} (happens : Nat → α → Prop) (undone : Nat → Prop) (a : α) (i : Nat) : Prop :=
  ∃ j < i, happens j a ∧ ∀ l, j < l → l < i → ¬ undone l ∧ ∀ b, ¬ happens l b

section Since

variable {α : Type} {happens : Nat → α → Prop} {undone : Nat → Prop} {a : α} {i : Nat}

theorem since_succ : Since happens undone a (i + 1) ↔
    happens i a ∨ Since happens undone a i ∧ ¬ undone i ∧ ∀ b, ¬ happens i b := by
  constructor
  · rintro ⟨j, before, happened, since⟩
    rcases Nat.lt_succ_iff_lt_or_eq.1 before with earlier | rfl
    · exact .inr ⟨⟨j, earlier, happened, fun l after before => since l after (by omega)⟩,
        since i earlier (Nat.lt_succ_self i)⟩
    · exact .inl happened
  · rintro (happened | ⟨⟨j, earlier, happened, since⟩, still⟩)
    · exact ⟨i, Nat.lt_succ_self i, happened, fun l after before => by omega⟩
    · refine ⟨j, Nat.lt_succ_of_lt earlier, happened, fun l after before => ?_⟩
      rcases Nat.lt_succ_iff_lt_or_eq.1 before with before | rfl
      · exact since l after before
      · exact still

/-- What comes about when something happens, does not happen again while it holds, and holds until
it is undone, tells what happened last. -/
theorem holds_iff_since (holds : Nat → α → Prop) (start : ∀ a, ¬ holds 0 a)
    (step : ∀ j < i, ∀ a, holds (j + 1) a ↔ happens j a ∨ holds j a ∧ ¬ undone j)
    (once : ∀ j < i, ∀ a b, holds j a → ¬ happens j b) (a : α) :
    holds i a ↔ Since happens undone a i := by
  induction i with
  | zero =>
    constructor
    · intro now
      exact absurd now (start a)
    · rintro ⟨j, before, _⟩
      exact absurd before (Nat.not_lt_zero j)
  | succ i ih =>
    have earlier := ih (fun j before => step j (Nat.lt_succ_of_lt before))
      fun j before => once j (Nat.lt_succ_of_lt before)
    rw [step i (Nat.lt_succ_self i), since_succ, ← earlier]
    constructor
    · rintro (happened | ⟨now, stays⟩)
      · exact .inl happened
      · exact .inr ⟨now, stays, fun b => once i (Nat.lt_succ_self i) a b now⟩
    · rintro (happened | ⟨now, stays, _⟩)
      · exact .inl happened
      · exact .inr ⟨now, stays⟩

end Since

namespace Node

variable {P : Act → Prop} {n n' : Node} {s : SessionId} {id : ContractId}

theorem fair_withChannels (channels historyless system : List String) (drill : Drill) :
    (withChannels channels historyless system drill).roll.Fair := by
  refine ⟨fun k s => ?_, fun s => ⟨?_, ?_⟩⟩
  · constructor
    · intro entry
      cases entry
    · rintro ⟨on, _⟩
      cases on
  · intro on
    cases on
  · rintro (phase | phase)
    · cases phase
    · cases phase

theorem fair_shows {m : Message} (h : n.roll.Fair) (shows : Shows s m n n') : n'.roll.Fair := by
  obtain ⟨r, shown, same | same⟩ := roll_shows shows
  · exact same ▸ h.shown shown
  · exact same ▸ (h.shown shown).finish s

/-- The directory stays fair while only sessions change it. -/
theorem fair_move (bySession : ∀ a, P a → a.isByHand = false) (h : n.roll.Fair)
    (move : Move P n n') : n'.roll.Fair := by
  rcases roll_move bySession move with same | ⟨s, m, shows⟩ | ⟨s, rfl⟩ | ⟨s, same⟩
  · exact same ▸ h
  · exact fair_shows h shows
  · have same : (n.act (.deregister s)).roll = n.roll.withdraw s := roll_deregister n s
    exact same ▸ h.withdraw s
  · exact same ▸ h.finish s

/-! ## Registrations -/

/-- A move by which a session is registered: it is shown that its contract registers with an
identity, and is established by that. -/
structure Enlists (s : SessionId) (id : ContractId) (n n' : Node) : Prop where
  shows : ∃ m, Shows s m n n' ∧ Event.ofKind? m.kind = some .registered ∧
    ContractId.codec.decode m.payload = .ok id
  created : (n.roll.standing s).phase = .created
  established : (n'.roll.standing s).phase = .established

/-- A move by which a session gives up what it holds: it is told to, or it ends. -/
def Quits (s : SessionId) (n n' : Node) : Prop :=
  n' = n.act (.deregister s) ∨
    (n.roll.standing s).phase ≠ .ended ∧ (n'.roll.standing s).phase = .ended

/-- The last registration of a session before a point of a run is under an identity, and the session
has not given it up since. -/
def Latest (run : Nat → Node) (s : SessionId) (id : ContractId) (i : Nat) : Prop :=
  Since (fun j id => Enlists s id (run j) (run (j + 1))) (fun j => Quits s (run j) (run (j + 1))) id i

/-- A session takes itself to be registered under an identity. -/
def GoesBy (n : Node) (s : SessionId) (id : ContractId) : Prop :=
  (n.roll.standing s).isRegistered = true ∧ (n.roll.standing s).identity = some id

/-- What one move does to a session: nothing, or it is registered, or it becomes ready, or it is no
longer registered because it gave up what it held, or had ended before. -/
inductive Turned (s : SessionId) (n n' : Node) : Prop
  | kept (same : n'.roll.standing s = n.roll.standing s)
  | enlisted {id : ContractId} (enlists : Enlists s id n n')
  | readied (established : (n.roll.standing s).phase = .established)
      (same : n'.roll.standing s = { n.roll.standing s with phase := .ready })
  | left (off : (n'.roll.standing s).isRegistered = false)
      (quits : (n.roll.standing s).isRegistered = true → (n.roll.standing s).phase ≠ .ended →
        Quits s n n')

theorem Enlists.standing (h : Enlists s id n n') :
    n'.roll.standing s = ⟨.established, true, some id, some (ContractInstance.ofName id.name)⟩ := by
  obtain ⟨⟨m, shows, _, decoded⟩, created, established⟩ := h
  obtain ⟨r, shown, same | same⟩ := roll_shows shows
  · rw [same] at established ⊢
    cases shown with
    | ignored =>
      rw [created] at established
      cases established
    | @enlisted id' d _ _ decoded' =>
      rw [decoded] at decoded'
      cases decoded'
      exact Roll.standing_put_self ..
    | untold =>
      rw [Roll.standing_withdraw] at established
      unfold Roll.enlist at established
      rw [Roll.standing_put_self] at established
      cases established
    | readied before =>
      rw [created] at before
      cases before
  · rw [same, Roll.standing_finish] at established
    cases established

theorem turned_of_ended {r : Roll} (same : n'.roll = r.finish s) : Turned s n n' := by
  have after : n'.roll.standing s = _ := (congrArg (·.standing s) same).trans (r.standing_finish s)
  exact .left (by rw [after]) fun _ live => .inr ⟨live, by rw [after]⟩

theorem turned_of_shows {m : Message}
    (new : (n.roll.standing s).phase = .created → (n.roll.standing s).isRegistered = false)
    (shows : Shows s m n n') : Turned s n n' := by
  obtain ⟨r, shown, same | same⟩ := roll_shows shows
  · cases shown with
    | ignored => exact .kept (congrArg (·.standing s) same)
    | enlisted created raised decoded =>
      refine .enlisted ⟨⟨m, shows, raised, decoded⟩, created, ?_⟩
      rw [same]
      unfold Roll.enlist
      rw [Roll.standing_put_self]
    | untold created =>
      refine .left ?_ fun on => ?_
      · rw [same, Roll.standing_withdraw]
      · rw [new created] at on
        cases on
    | readied established =>
      refine .readied established ?_
      rw [same, Roll.standing_put_self]
  · exact turned_of_ended same

theorem turned_move (bySession : ∀ a, P a → a.isByHand = false)
    (new : (n.roll.standing s).phase = .created → (n.roll.standing s).isRegistered = false)
    (move : Move P n n') : Turned s n n' := by
  rcases roll_move bySession move with same | ⟨t, m, shows⟩ | ⟨t, rfl⟩ | ⟨t, same⟩
  · exact .kept (congrArg (·.standing s) same)
  · by_cases here : t = s
    · exact turned_of_shows new (here ▸ shows)
    · obtain ⟨r, shown, same⟩ := roll_shows shows
      have kept : r.standing s = n.roll.standing s := Roll.standing_shown_other shown here
      rcases same with same | same
      · exact .kept ((congrArg (·.standing s) same).trans kept)
      · exact .kept ((congrArg (·.standing s) same).trans
          ((Roll.standing_finish_other r here).trans kept))
  · have same : (n.act (.deregister t)).roll = n.roll.withdraw t := roll_deregister n t
    by_cases here : t = s
    · subst here
      refine .left ?_ fun _ _ => .inl rfl
      rw [same, Roll.standing_withdraw]
    · exact .kept ((congrArg (·.standing s) same).trans (Roll.standing_withdraw_other _ here))
  · by_cases here : t = s
    · exact turned_of_ended (here ▸ same)
    · exact .kept ((congrArg (·.standing s) same).trans (Roll.standing_finish_other _ here))

/-- A session that gives up what it holds is not registered. -/
theorem Quits.off (h : n'.roll.Fair) (quits : Quits s n n') :
    (n'.roll.standing s).isRegistered = false := by
  rcases quits with rfl | ⟨_, ended⟩
  · have same : (n.act (.deregister s)).roll = n.roll.withdraw s := roll_deregister n s
    rw [same, Roll.standing_withdraw]
  · apply Bool.eq_false_iff.2
    intro on
    rcases (h.timely s).live on with phase | phase
    all_goals
      rw [ended] at phase
      cases phase

theorem GoesBy.not_enlists (goes : n.GoesBy s id) (h : n.roll.Fair) (id' : ContractId) :
    ¬ Enlists s id' n n' := by
  intro enlists
  have on := goes.1
  rw [h.off enlists.created] at on
  cases on

/-- After a move a session is registered under an identity if it is registered under that one by the
move, or was before and has not given it up. -/
theorem goesBy_move (bySession : ∀ a, P a → a.isByHand = false) (h : n.roll.Fair)
    (move : Move P n n') :
    n'.GoesBy s id ↔ Enlists s id n n' ∨ n.GoesBy s id ∧ ¬ Quits s n n' := by
  have fair : n'.roll.Fair := fair_move bySession h move
  constructor
  · rintro ⟨on, identity⟩
    have stays : ¬ Quits s n n' := by
      intro quits
      rw [quits.off fair] at on
      cases on
    cases turned_move (s := s) bySession h.off move with
    | kept same =>
      rw [same] at on identity
      exact .inr ⟨⟨on, identity⟩, stays⟩
    | enlisted enlists =>
      rw [enlists.standing] at identity
      cases identity
      exact .inl enlists
    | readied _ same =>
      rw [same] at on identity
      exact .inr ⟨⟨on, identity⟩, stays⟩
    | left off =>
      rw [off] at on
      cases on
  · rintro (enlists | ⟨goes, stays⟩)
    · unfold GoesBy
      rw [enlists.standing]
      exact ⟨rfl, rfl⟩
    · have ⟨on, identity⟩ := goes
      cases turned_move (s := s) bySession h.off move with
      | kept same | readied _ same =>
        unfold GoesBy
        rw [same]
        exact ⟨on, identity⟩
      | enlisted enlists => exact absurd enlists (goes.not_enlists h _)
      | left _ quits =>
        refine absurd (quits on fun ended => ?_) stays
        rcases (h.timely s).live on with phase | phase <;> cases ended.symm.trans phase

/-! ## Runs -/

variable {run : Nat → Node} {i : Nat}

theorem fair_run (bySession : ∀ a, P a → a.isByHand = false) (start : (run 0).roll.Fair)
    (moves : ∀ j < i, Move P (run j) (run (j + 1))) : (run i).roll.Fair := by
  induction i with
  | zero => exact start
  | succ i ih =>
    have fair := ih fun j before => moves j (Nat.lt_succ_of_lt before)
    exact fair_move bySession fair (moves i (Nat.lt_succ_self i))

/-- A session takes itself to be registered under the identity of its last registration, until it
gives that up. -/
theorem goesBy_run (bySession : ∀ a, P a → a.isByHand = false) (start : (run 0).roll.Fair)
    (blank : ∀ s, ((run 0).roll.standing s).isRegistered = false)
    (moves : ∀ j < i, Move P (run j) (run (j + 1))) (s : SessionId) (id : ContractId) :
    (run i).GoesBy s id ↔ Latest run s id i := by
  have fair (j : Nat) (before : j < i) : (run j).roll.Fair :=
    fair_run bySession start fun l earlier => moves l (by omega)
  refine holds_iff_since (fun j id => (run j).GoesBy s id) (fun id goes => ?_)
    (fun j before id => goesBy_move bySession (fair j before) (moves j before))
    (fun j before _ id' goes => goes.not_enlists (fair j before) id') id
  have on := goes.1
  rw [blank s] at on
  cases on

/-- The directory lists the sessions that are registered, each under the key of its identity. -/
theorem listed_iff (h : n.roll.Fair) (k : String) (s : SessionId) :
    n.directory.get? k = some s ↔
      ∃ id, (ContractInstance.ofName id.name).key = k ∧ n.GoesBy s id := by
  refine (h.listed k s).trans ⟨?_, ?_⟩
  · rintro ⟨on, i, place, key⟩
    obtain ⟨id, identity, place', _⟩ := (h.timely s).holds on
    rw [place] at place'
    cases place'
    exact ⟨id, key, on, identity⟩
  · rintro ⟨id, key, on, identity⟩
    obtain ⟨id', identity', place, holds⟩ := (h.timely s).holds on
    rw [identity] at identity'
    cases identity'
    exact key ▸ holds

theorem found_of_live (live : (n.roll.standing s).phase ≠ .created) :
    ∃ ses, n.session? s = some ses ∧ n.roll.standing s = ses.standing := by
  cases found : n.session? s with
  | some ses => exact ⟨ses, rfl, standing_of_found found⟩
  | none =>
    refine absurd ?_ live
    show (((n.session? s).map Session.standing).getD { phase := .created }).phase = _
    rw [found]
    rfl

theorem GoesBy.live (goes : n.GoesBy s id) (fair : n.roll.Fair) :
    ∃ ses, n.session? s = some ses ∧ (ses.phase = .established ∨ ses.phase = .ready) := by
  have live := (fair.timely s).live goes.1
  obtain ⟨ses, found, same⟩ := found_of_live (n := n) (s := s) (by
    rcases live with phase | phase
    all_goals
      rw [phase]
      exact nofun)
  rw [same] at live
  exact ⟨ses, found, live⟩

theorem move_acts {acts : List Act} (given : ∀ a ∈ acts, P a ∧ ∀ span, a ≠ .pass span) {j : Nat}
    (before : j < acts.length) (n : Node) :
    Move P ((acts.take j).foldl act n) ((acts.take (j + 1)).foldl act n) := by
  rw [List.take_succ_eq_append_getElem before, List.foldl_append]
  obtain ⟨allowed, once⟩ := given _ (List.getElem_mem before)
  exact .act _ allowed once

end Node

end ContractNode
