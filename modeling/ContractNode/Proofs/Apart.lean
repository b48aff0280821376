import ContractNode.Proofs.Statements
import ContractNode.Proofs.Vital

/-!
# Registrations that nobody comes into

Sessions register and give their keys up while other things happen in between. As long as nobody
changes the directory past the sessions, or has a session give its key up while it is being
registered, every session has its tenure, and is kept as what its contract stated.

* `Scene.Apart` : nobody has a session give its key up while it is being registered;
* `Scene.Fair` : every session has its tenure, and is identified;
* `fair_move`, `fair_told`, `fair_halts`, `fair_lists`, `fair_next` : what can happen one by one;
* `fair_stage` : scenes stay fair, whatever happens.
-/

namespace ContractNode

namespace Scene

/-- Nobody has a session give its key up while it is being registered. -/
def Apart (x : Scene) : Prop :=
  ∀ s i l, x.threads i = some (.deregisters s l) → ¬ Held x.threads s

/-- Every session has its tenure, and is identified when it is past `created` and has not ended. -/
structure Fair (x : Scene) : Prop where
  tenure : ∀ s, Tenure x.node.roll x.threads s
  identified : ∀ s, (x.node.roll.standing s).phase = .established ∨
    (x.node.roll.standing s).phase = .ready → (x.node.roll.standing s).Identified
  opened : ∀ s, Held x.threads s → ∃ ses, x.node.session? s = some ses

variable {P : Act → Prop} {x x' : Scene} {s t : SessionId} {i : Nat} {th : Thread}

/-! ## Scenes stay fair -/

structure Concerns (s : SessionId) (x x' : Scene) : Prop where
  standing : ∀ t, s ≠ t → x'.node.roll.standing t = x.node.roll.standing t
  entries : ∀ t, s ≠ t → ∀ k,
    x'.node.directory.get? k = some t ↔ x.node.directory.get? k = some t
  threads : ∀ t, s ≠ t → ∀ i th, th.session = t →
    (x'.threads i = some th ↔ x.threads i = some th)
  opened : ∀ t ses, x.node.session? t = some ses → ∃ ses', x'.node.session? t = some ses'

theorem Fair.concerns (h : x.Fair) (concerns : Concerns s x x')
    (tenure : Tenure x'.node.roll x'.threads s)
    (identified : (x'.node.roll.standing s).phase = .established ∨
      (x'.node.roll.standing s).phase = .ready → (x'.node.roll.standing s).Identified)
    (begun : Held x'.threads s → ∃ ses, x'.node.session? s = some ses) : x'.Fair := by
  refine ⟨fun t => ?_, fun t => ?_, fun t => ?_⟩
  all_goals
    by_cases other : s = t
  · exact other ▸ tenure
  · exact (h.tenure t).transfer (concerns.standing t other) (concerns.entries t other)
      (concerns.threads t other)
  · exact other ▸ identified
  · rw [concerns.standing t other]
    exact h.identified t
  · exact other ▸ begun
  · rintro ⟨i, id, e, how, busy⟩
    obtain ⟨ses, found⟩ := h.opened t ⟨i, id, e, how, (concerns.threads t other i _ rfl).1 busy⟩
    exact concerns.opened t ses found

/-- Threads of other sessions do not notice what a thread does. -/
theorem update_other {threads : Nat → Option Thread} {o : Option Thread}
    (before : ∀ th, threads i = some th → th.session = s)
    (after : ∀ th, o = some th → th.session = s) (other : s ≠ t) (j : Nat) (th : Thread)
    (here : th.session = t) :
    Function.update threads i o j = some th ↔ threads j = some th := by
  by_cases same : j = i
  · subst same
    rw [Function.update_self]
    constructor
    · intro now
      exact absurd ((after th now).symm.trans here) other
    · intro busy
      exact absurd ((before th busy).symm.trans here) other
  · rw [Function.update_of_ne same]

/-- A thread registers a session if it did before, unless it is the one that goes on. -/
theorem held_update {threads : Nat → Option Thread} {o : Option Thread}
    (h : Held (Function.update threads i o) t) :
    Held threads t ∨ ∃ id e how, o = some (.registers t id e how) := by
  obtain ⟨j, id, e, how, busy⟩ := h
  by_cases same : j = i
  · subst same
    rw [Function.update_self] at busy
    exact .inr ⟨id, e, how, busy⟩
  · rw [Function.update_of_ne same] at busy
    exact .inl ⟨j, id, e, how, busy⟩

theorem concerns_advance (busy : x.threads i = some th)
    (entries : ∀ t, th.session ≠ t → ∀ k,
      (th.next x.node).1.directory.get? k = some t ↔ x.node.directory.get? k = some t) :
    Concerns th.session x (x.advance i th) where
  standing t other := (Node.stated_next x.node th).standing other
  entries := entries
  threads t other j th' here := by
    refine update_other (fun th'' busy' => ?_) (fun th'' => Node.session_next) other j th' here
    cases busy.symm.trans busy'
    rfl
  opened t ses found := (Node.stated_next x.node th).opened found

/-- A statement is about the session of its thread. -/
theorem begun_advance (h : x.Fair) (busy : x.threads i = some th)
    (held : Held (x.advance i th).threads th.session) :
    ∃ ses, (x.advance i th).node.session? th.session = some ses := by
  have before : Held x.threads th.session := by
    rcases held_update held with held | ⟨id, e, how, next⟩
    · exact held
    · cases th with
      | registers s id' e' how' => exact ⟨i, id', e', how', busy⟩
      | follows s how' =>
        exfalso
        cases how' with
        | handed | triggered => cases next
        | received =>
          simp only [Thread.next] at next
          split at next <;> cases next
      | deregisters s l =>
        obtain ⟨_, _, now⟩ := Option.map_eq_some_iff.1 next
        cases now
  obtain ⟨ses, found⟩ := h.opened _ before
  exact (Node.stated_next x.node th).opened found

/-- A thread that has shown a message to a session changes nothing about its registration. -/
theorem roll_follows (n : Node) (s : SessionId) (how : Showing) :
    ((Thread.follows s how).next n).1.roll = n.roll := by
  cases how with
  | handed => rfl
  | triggered c =>
    simp only [Thread.next]
    split
    · exact (Node.Steady.modify n s fun ses _ => (ses.talks_sendAnyway _).steady).roll
    · rfl
  | received =>
    simp only [Thread.next]
    split
    · rename_i ended
      obtain ⟨ses, found, phase⟩ := (Option.any_eq_true ..).1 ended
      have here := Node.standing_of_found found
      rw [Node.roll_haltInbound found]
      refine Roll.ext rfl (funext fun t => ?_)
      by_cases other : s = t
      · subst other
        rw [Roll.standing_put_self, here, ← beq_iff_eq.1 phase]
        rfl
      · exact Roll.standing_put_other _ other _
    · rfl

theorem not_engaged_follows {n : Node} {how : Showing} {th : Thread}
    (next : ((Thread.follows s how).next n).2 = some th) : ¬ th.Engaged := by
  cases how with
  | handed | triggered => cases next
  | received =>
    simp only [Thread.next] at next
    split at next
    · cases next
      exact not_false
    · cases next

theorem fair_follows {how : Showing} (h : x.Fair) (busy : x.threads i = some (.follows s how)) :
    (x.advance i (.follows s how)).Fair := by
  have roll : (x.advance i (.follows s how)).node.roll = x.node.roll := roll_follows x.node s how
  refine h.concerns (concerns_advance busy fun t _ k => ?_) ?_ ?_ (begun_advance h busy)
  · exact iff_of_eq (congrArg (·.directory.get? k = some t) roll)
  · rw [roll]
    refine (h.tenure s).reassign ?_ (fun _ => not_engaged_follows) fun due => ?_
    · rintro ⟨th, there, _, engaged⟩
      cases busy.symm.trans there
      exact engaged
    · cases busy.symm.trans due
  · rw [Thread.session, roll]
    exact h.identified s

/-- A thread that goes on does not touch the entries of other sessions. -/
theorem entries_next (h : x.Fair) (apart : x.Apart) (busy : x.threads i = some th) (t : SessionId)
    (other : th.session ≠ t) (k : String) : (th.next x.node).1.directory.get? k = some t ↔
      x.node.directory.get? k = some t := by
  cases th with
  | registers s id e how =>
    obtain ⟨ses, found⟩ := h.opened s ⟨i, id, e, how, busy⟩
    exact (Node.tenure_registers found (h.tenure s) busy).2.1 t other k
  | follows s how =>
    exact iff_of_eq (congrArg (·.directory.get? k = some t) (roll_follows x.node s how))
  | deregisters s l =>
    exact (Node.tenure_deregisters (h.tenure s) (apart s i l busy) busy).2 t other k

theorem fair_next (h : x.Fair) (apart : x.Apart) (busy : x.threads i = some th) :
    (x.advance i th).Fair := by
  have concerns := concerns_advance busy (entries_next h apart busy)
  cases th with
  | registers s id e how =>
    obtain ⟨ses, found⟩ := h.opened s ⟨i, id, e, how, busy⟩
    obtain ⟨tenure, _, known⟩ := Node.tenure_registers found (h.tenure s) busy
    refine h.concerns concerns tenure (fun past => ?_) (begun_advance h busy)
    refine known.resolve_left fun created => ?_
    rcases past with past | past <;> cases created.symm.trans past
  | follows s how => exact fair_follows h busy
  | deregisters s l =>
    have tenure := (Node.tenure_deregisters (h.tenure s) (apart s i l busy) busy).1
    refine h.concerns concerns tenure (fun past => ?_) (begun_advance h busy)
    obtain ⟨isRegistered, standing⟩ := x.node.standing_leaving s l
    change ((l.next x.node s).1.roll.standing s).phase = _ ∨
      ((l.next x.node s).1.roll.standing s).phase = _ at past
    show ((l.next x.node s).1.roll.standing s).Identified
    rw [standing] at past ⊢
    exact h.identified s past

theorem fair_told (h : x.Fair) (idle : x.threads i = none) (s : SessionId) :
    (x.set i x.node (some (.deregisters s .strike))).Fair := by
  have concerns : Concerns s x (x.set i x.node (some (.deregisters s .strike))) := by
    refine ⟨fun _ _ => rfl, fun _ _ _ => Iff.rfl, fun t other => ?_, fun t ses found => ⟨ses, found⟩⟩
    refine update_other (fun th busy => ?_) (fun th now => ?_) other
    · cases idle.symm.trans busy
    · cases now
      rfl
  refine h.concerns concerns ?_ (h.identified s) fun held => ?_
  · refine (h.tenure s).reassign ?_ (fun th now => ?_) fun due => ?_
    · rintro ⟨th, busy, _⟩
      cases idle.symm.trans busy
    · cases now
      exact not_false
    · cases idle.symm.trans due
  · rcases held_update held with held | ⟨_, _, _, now⟩
    · exact h.opened s held
    · cases now

/-- A session that has been shown something is identified when it may be registered. -/
theorem identified_shown {r r' : Roll} {m : Message} (shown : r.Shown s m r')
    (h : (r.standing s).phase = .established ∨ (r.standing s).phase = .ready →
      (r.standing s).Identified)
    (past : (r'.standing s).phase = .established ∨ (r'.standing s).phase = .ready) :
    (r'.standing s).Identified := by
  cases shown with
  | ignored => exact h past
  | @enlisted id d =>
    unfold Roll.enlist
    rw [Roll.standing_put_self]
    exact ⟨id, rfl, rfl⟩
  | @untold id d =>
    rw [Roll.standing_withdraw] at past
    unfold Roll.enlist at past
    rw [Roll.standing_put_self] at past
    rcases past with past | past <;> cases past
  | readied established =>
    rw [Roll.standing_put_self]
    exact h (.inl established)

theorem opened_move {n n' : Node} {ses : Session} (move : Node.Move P n n')
    (found : n.session? t = some ses) : ∃ ses', n'.session? t = some ses' := by
  have lasting : Session.Lasting fun _ => True :=
    ⟨fun _ _ => trivial, fun _ _ _ => trivial, fun _ _ => trivial, fun _ _ _ _ _ => trivial,
      fun _ _ _ _ => trivial⟩
  obtain ⟨ses', found', _⟩ := (Node.upholds_move lasting move).kept t ses found
  exact ⟨ses', found'⟩

theorem fair_halts {n' : Node} (h : x.Fair) (halts : Node.Halts s x.node n')
    (free : ¬ Held x.threads s) (idle : x.threads i = none) :
    (x.set i n' (some (.deregisters s .strike))).Fair := by
  obtain ⟨m, r, shown, roll⟩ := Node.roll_halts halts
  have after (th : Thread) (now : some (.deregisters s .strike) = some th) :
      th.session = s ∧ ¬ th.Engaged := by
    cases now
    exact ⟨rfl, not_false⟩
  have concerns : Concerns s x (x.set i n' (some (.deregisters s .strike))) := by
    refine ⟨fun t other => ?_, fun t other k => ?_, fun t other => ?_, fun t ses found => ?_⟩
    · show n'.roll.standing t = _
      rw [roll, Roll.standing_put_other _ other, Roll.standing_shown_other shown other]
    · show n'.roll.directory.get? k = some t ↔ _
      rw [roll]
      exact ((h.tenure s).shown free shown).2 t other k
    · refine update_other (fun th busy => ?_) (fun th now => (after th now).1) other
      cases idle.symm.trans busy
    · obtain ⟨ses', found'⟩ := opened_move (P := fun _ => True) halts.move found
      obtain ⟨directory, left⟩ := n'.deregister_eq s
      rw [left] at found'
      change (n'.modify s _).session? t = some ses' at found'
      rcases Node.session?_modify_cases found' with ⟨rfl, ses, there, _⟩ | ⟨_, there⟩
      · exact ⟨ses, there⟩
      · exact ⟨ses', there⟩
  refine h.concerns concerns ?_ (fun past => ?_) fun held => ?_
  · have shown' := ((h.tenure s).shown free shown).1
    have due : ∃ j, Function.update x.threads i (some (.deregisters s .strike)) j =
        some (.deregisters s .strike) := ⟨i, Function.update_self ..⟩
    have begun := shown'.reassign (i := i) (o := some (.deregisters s .strike)) ?_
      (fun th now => (after th now).2) ?_
    · show Tenure n'.roll _ s
      rw [roll]
      refine begun.rephase (fun held => ?_) nofun fun _ => .inr (.inr ⟨rfl, due⟩)
      rcases held_update held with held | ⟨_, _, _, now⟩
      · exact free held
      · cases now
    · rintro ⟨th, busy, _⟩
      cases idle.symm.trans busy
    · intro due
      cases idle.symm.trans due
  · change (n'.roll.standing s).phase = _ ∨ (n'.roll.standing s).phase = _ at past
    rw [roll, Roll.standing_put_self] at past
    rcases past with past | past <;> cases past
  · rcases held_update held with held | ⟨_, _, _, now⟩
    · exact absurd held free
    · cases now

theorem roll_fetches {m : Message} {how : Showing} {n n' : Node} (fetches : Fetches P s m how n n') :
    n'.roll = n.roll := by
  cases fetches with
  | handed => rfl
  | received | triggered => exact Node.roll_modify_same n s fun _ => rfl

theorem fair_lists {n' : Node} {m : Message} {how : Showing} {ses : Session} {id : ContractId}
    {d : Directory} (h : x.Fair) (fetches : Fetches P s m how x.node n')
    (free : ¬ Held x.threads s) (idle : x.threads i = none) (found : n'.session? s = some ses)
    (created : ses.phase = .created)
    (vacant : n'.directory.register (ContractInstance.ofName id.name).key s = .ok d) :
    (x.set i { n' with directory := d } (some (.registers s id .flag how))).Fair := by
  have same : n'.roll = x.node.roll := roll_fetches fetches
  have standing (t : SessionId) : n'.roll.standing t = x.node.roll.standing t := by rw [same]
  have new : (x.node.roll.standing s).phase = .created := by
    rw [← standing, Node.standing_of_found found]
    exact created
  obtain ⟨off, none, nobody⟩ := (h.tenure s).out_of_created free new
  obtain ⟨entries, others⟩ := Tenure.get?_take (r := n'.roll) vacant (same ▸ none)
  have concerns :
      Concerns s x (x.set i { n' with directory := d } (some (.registers s id .flag how))) := by
    refine ⟨fun t _ => standing t, fun t other k => ?_, fun t other => ?_, fun t ses there => ?_⟩
    · exact (others t other k).trans (iff_of_eq (congrArg (·.directory.get? k = some t) same))
    · refine update_other (fun th busy => ?_) (fun th now => ?_) other
      · cases idle.symm.trans busy
      · cases now
        rfl
    · show ∃ ses', n'.session? t = some ses'
      cases fetches with
      | handed => exact ⟨ses, there⟩
      | received | triggered =>
        rw [Node.session?_modify_if]
        split
        · exact ⟨_, congrArg (Option.map _) there⟩
        · exact ⟨ses, there⟩
  refine h.concerns concerns ?_ (fun past => ?_) fun _ => ⟨ses, found⟩
  · refine .entering (Function.update_self ..) ((congrArg Standing.phase (standing s)).trans new)
      ((congrArg Standing.isRegistered (standing s)).trans off) entries fun j engaged => ?_
    rcases Tenure.engages_update engaged with ⟨here, _⟩ | ⟨_, engaged⟩
    · exact here
    · exact absurd engaged (nobody j)
  · change (n'.roll.standing s).phase = _ ∨ (n'.roll.standing s).phase = _ at past
    rw [standing, new] at past
    rcases past with past | past <;> cases past

/-- A move changes what is known of one session, in a way that keeps its tenure. -/
theorem Fair.rolled {n' : Node} {r : Roll} (h : x.Fair) (move : Node.Move P x.node n')
    (roll : n'.roll = r) (others : ∀ t, s ≠ t → r.standing t = x.node.roll.standing t)
    (tenure : Tenure r x.threads s ∧ ∀ t, s ≠ t → ∀ k,
      r.directory.get? k = some t ↔ x.node.roll.directory.get? k = some t)
    (identified : (r.standing s).phase = .established ∨ (r.standing s).phase = .ready →
      (r.standing s).Identified) : Scene.Fair ⟨n', x.threads⟩ := by
  subst roll
  have concerns : Concerns s x ⟨n', x.threads⟩ :=
    ⟨others, tenure.2, fun _ _ _ _ _ => Iff.rfl, fun _ _ found => opened_move move found⟩
  refine h.concerns concerns tenure.1 identified fun held => ?_
  obtain ⟨ses, found⟩ := h.opened s held
  exact opened_move move found

/-- What a move does to the roll when it spares the sessions that are being registered: nothing, or it
concerns a session that is not. -/
inductive Moved (x : Scene) (n' : Node) : Prop
  | same (roll : n'.roll = x.node.roll)
  | shown {t : SessionId} {m : Message} {r : Roll} (free : ¬ Held x.threads t)
      (shown : x.node.roll.Shown t m r) (roll : n'.roll = r ∨ n'.roll = r.finish t)
  | told {t : SessionId} (free : ¬ Held x.threads t) (deregisters : n' = x.node.act (.deregister t))
  | ended {t : SessionId} (free : ¬ Held x.threads t) (roll : n'.roll = x.node.roll.finish t)

theorem moved_move {n' : Node} (bySession : ∀ a, P a → a.isByHand = false) (h : x.Fair)
    (move : Node.Move P x.node n') (spares : ∀ s, Held x.threads s → Spares s x.node n') :
    Moved x n' := by
  rcases Node.roll_move bySession move with same | ⟨t, m, shows⟩ | ⟨t, rfl⟩ | ⟨t, same⟩
  · exact .same same
  · by_cases held : Held x.threads t
    · exact .same ((spares t held).shown m shows)
    · obtain ⟨r, shown, roll⟩ := Node.roll_shows shows
      exact .shown held shown roll
  · by_cases held : Held x.threads t
    · have roll : (x.node.act (.deregister t)).roll = x.node.roll.withdraw t :=
        Node.roll_deregister x.node t
      have standing := (spares t held).standing
      rw [roll, Roll.standing_withdraw] at standing
      have off : (x.node.roll.standing t).isRegistered = false := by rw [← standing]
      refine .same (roll.trans ?_)
      unfold Roll.withdraw
      rw [if_neg (Bool.eq_false_iff.1 off)]
    · exact .told held rfl
  · by_cases held : Held x.threads t
    · obtain ⟨i, id, e, how, busy⟩ := held
      have standing := (spares t ⟨i, id, e, how, busy⟩).standing
      have created := ((h.tenure t).of_registers busy).1
      rw [← standing, same, Roll.standing_finish] at created
      cases created
    · exact .ended held same

theorem fair_move {n' : Node} (bySession : ∀ a, P a → a.isByHand = false) (h : x.Fair)
    (move : Node.Move P x.node n') (spares : ∀ s, Held x.threads s → Spares s x.node n') :
    Scene.Fair ⟨n', x.threads⟩ := by
  have ended (r : Roll) (s : SessionId) :
      ((r.finish s).standing s).phase = .established ∨ ((r.finish s).standing s).phase = .ready →
        ((r.finish s).standing s).Identified := by
    rw [Roll.standing_finish]
    rintro (past | past) <;> cases past
  cases moved_move bySession h move spares with
  | same roll =>
    exact h.rolled (s := 0) move roll (fun _ _ => rfl) ⟨h.tenure 0, fun _ _ _ => Iff.rfl⟩
      (h.identified 0)
  | @shown t m r free shown roll =>
    obtain ⟨tenure, entries⟩ := (h.tenure t).shown free shown
    rcases roll with roll | roll
    · exact h.rolled move roll (fun u other => Roll.standing_shown_other shown other)
        ⟨tenure, entries⟩ (identified_shown shown (h.identified t))
    · refine h.rolled move roll (fun u other => ?_) ?_ (ended r t)
      · rw [Roll.standing_finish_other _ other, Roll.standing_shown_other shown other]
      · obtain ⟨finished, entries'⟩ := tenure.finish free
        exact ⟨finished, fun u other k => (entries' u other k).trans (entries u other k)⟩
  | @told t free deregisters =>
    subst deregisters
    have roll : (x.node.act (.deregister t)).roll = x.node.roll.withdraw t :=
      Node.roll_deregister x.node t
    refine h.rolled move roll (fun u other => Roll.standing_withdraw_other _ other)
      ((h.tenure t).withdraw free) fun past => ?_
    rw [Roll.standing_withdraw] at past ⊢
    exact h.identified t past
  | ended free roll =>
    exact h.rolled move roll (fun u other => Roll.standing_finish_other _ other)
      ((h.tenure _).finish free) (ended _ _)

/-- Every session keeps its tenure, whatever happens. -/
theorem fair_stage (bySession : ∀ a, P a → a.isByHand = false) (h : x.Fair) (apart : x.Apart)
    (stage : Stage P x x') : x'.Fair := by
  cases stage with
  | move move spares => exact fair_move bySession h move spares
  | @told i s _ idle => exact fair_told h idle s
  | halts halts free idle => exact fair_halts h halts free idle
  | lists fetches free idle found created _ _ vacant =>
    exact fair_lists h fetches free idle found created vacant
  | next busy => exact fair_next h apart busy

theorem fair_still {n : Node} (h : n.roll.Fair) : (still n).Fair := by
  have idle (s : SessionId) (i : Nat) : ¬ Engages (still n).threads s i := by
    rintro ⟨th, busy, _⟩
    cases busy
  refine ⟨fun s => ?_, fun s => (h.timely s).identified, fun s held => ?_⟩
  · cases on : (n.roll.standing s).isRegistered with
    | false =>
      refine .out on (fun k entry => ?_) (idle s)
      rw [((h.listed k s).1 entry).1] at on
      cases on
    | true =>
      obtain ⟨id, identity, place, holds⟩ := (h.timely s).holds on
      refine .within on identity place (fun k => (h.listed k s).trans ?_)
        (((h.timely s).live on).imp_right .inl) (idle s)
      constructor
      · rintro ⟨_, i, place', key⟩
        cases place.symm.trans place'
        exact key
      · rintro rfl
        exact holds
  · exact absurd held (not_held_still n s)

end Scene

end ContractNode
