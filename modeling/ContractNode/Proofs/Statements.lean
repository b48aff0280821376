import ContractNode.Proofs.Tenure

/-!
# Statements

A statement of a registration, or of giving a key up, changes the session that it is about, or it
frees a key.

* `Node.Stated`, `stated_next` : what a statement changes;
* `roll_halts` : what it does to the roll that a loop of a session stops;
* `tenure_registers`, `tenure_deregisters` : what a statement does to the tenure of its session.
-/

namespace ContractNode

namespace Node

variable {n n' n'' : Node} {s t : SessionId}

/-- A statement is about a session: nothing but the session changes, or the directory does. -/
inductive Stated (s : SessionId) (n : Node) : Node → Prop
  | modified (f : Session → Session) : Stated s n (n.modify s f)
  | vacated (key : String) : Stated s n { n with directory := n.directory.deregister key }

theorem Stated.same (s : SessionId) (n : Node) : Stated s n n := by
  have still : n.modify s (fun ses => ses) = n := modify_self fun _ _ => rfl
  have modified : Stated s n (n.modify s fun ses => ses) := .modified _
  rwa [still] at modified

theorem shut_eq (n : Node) (s : SessionId) : ∃ f, n.shut s = n.modify s f := by
  unfold shut
  split
  · exact ⟨_, rfl⟩
  · exact ⟨_, modify_modify ..⟩

theorem haltInbound_eq (n : Node) (s : SessionId) : ∃ f, n.haltInbound s = n.modify s f := by
  obtain ⟨f, shut⟩ := (n.modify s fun ses => { ses with inbound := .stopped }).shut_eq s
  exact ⟨_, shut.trans (modify_modify ..)⟩

theorem stated_leaving (n : Node) (s : SessionId) (l : Leaving) : Stated s n (l.next n s).1 := by
  cases l with
  | strike =>
    simp only [Leaving.next]
    split
    · exact .modified _
    · exact .same s n
  | look => exact .same s n
  | vacate key => exact .vacated key

theorem stated_joining (n : Node) (s : SessionId) (id : ContractId) (e : Joining) :
    Stated s n (e.next n s id).1 := by
  cases e with
  | flag | identity | place => exact .modified _
  | tell =>
    simp only [Joining.next]
    rcases n.send_cases s { kind := .registered } with ⟨e, sent⟩ | ⟨ses, link, _, _, sent⟩
    · rw [sent]
      exact .same s n
    · rw [sent]
      exact .modified _
  | establish =>
    have both : (n.modify s Session.announce).setPhase s .established = n.modify s _ :=
      modify_modify ..
    show Stated s n ((n.modify s Session.announce).setPhase s .established)
    rw [both]
    exact .modified _
  | undo l => exact stated_leaving n s l

theorem stated_next (n : Node) (th : Thread) : Stated th.session n (th.next n).1 := by
  cases th with
  | registers s id e how =>
    have stated := stated_joining n s id e
    simp only [Thread.next]
    generalize e.next n s id = p at stated ⊢
    obtain ⟨n', _ | e'⟩ := p
    · exact stated
    · exact stated
  | follows s how =>
    cases how with
    | handed => exact .same s n
    | received =>
      simp only [Thread.next]
      split
      · obtain ⟨f, halted⟩ := n.haltInbound_eq s
        exact halted ▸ .modified f
      · exact .same s n
    | triggered c =>
      simp only [Thread.next]
      split
      · exact .modified _
      · exact .same s n
  | deregisters s l => exact stated_leaving n s l

theorem session_next {n : Node} {th th' : Thread} (next : (th.next n).2 = some th') :
    th'.session = th.session := by
  cases th with
  | registers s id e how =>
    simp only [Thread.next] at next
    generalize e.next n s id = p at next
    obtain ⟨n', _ | e'⟩ := p
    all_goals
      cases next
      rfl
  | follows s how =>
    cases how with
    | handed | triggered => cases next
    | received =>
      simp only [Thread.next] at next
      split at next
      · cases next
        rfl
      · cases next
  | deregisters s l =>
    obtain ⟨l', _, rfl⟩ := Option.map_eq_some_iff.1 next
    rfl

theorem Stated.standing (h : Stated s n n') (other : s ≠ t) :
    n'.roll.standing t = n.roll.standing t := by
  cases h with
  | modified f =>
    show (((n.modify s f).session? t).map Session.standing).getD _ = _
    rw [session?_modify_if, if_neg other]
    rfl
  | vacated => rfl

theorem Stated.opened (h : Stated s n n') {ses : Session} (found : n.session? t = some ses) :
    ∃ ses', n'.session? t = some ses' := by
  cases h with
  | modified f =>
    rw [session?_modify_if]
    split
    · exact ⟨f ses, by rw [found]; rfl⟩
    · exact ⟨ses, found⟩
  | vacated => exact ⟨ses, found⟩

/-! ## Ends -/

theorem roll_shut {ses : Session} (found : n.session? s = some ses) :
    (n.shut s).roll = n.roll.put s { n.roll.standing s with phase := .ended } := by
  unfold shut
  rw [found]
  split
  · rw [roll_modify found, standing_of_found found]
    rfl
  · have told := n.steady_farewelled s
    obtain ⟨ses', found', _⟩ := told.forth found
    rw [roll_modify found', told.roll, ← told.roll, standing_of_found found', told.roll]
    rfl

theorem roll_haltInbound {ses : Session} (found : n.session? s = some ses) :
    (n.haltInbound s).roll = n.roll.put s { n.roll.standing s with phase := .ended } := by
  have halted : (n.modify s fun ses => { ses with inbound := .stopped }).roll = n.roll :=
    roll_modify_same n s fun _ => rfl
  unfold haltInbound
  rw [roll_shut (session?_modify found), halted]

theorem roll_haltOutbound {ses : Session} (found : n.session? s = some ses) :
    (n.haltOutbound s).roll = n.roll.put s { n.roll.standing s with phase := .ended } := by
  rw [← roll_shut found]
  exact roll_modify_same _ s fun _ => rfl

/-- What it does to the roll that a loop of a session stops: a message may be shown before. -/
theorem roll_halts (h : Halts s n n') : ∃ m r, n.roll.Shown s m r ∧
    n'.roll = r.put s { r.standing s with phase := .ended } := by
  cases h with
  | closed found => exact ⟨{ kind := .error }, n.roll, .ignored, roll_haltInbound found⟩
  | @broken ses e inbox found =>
    have same : (n.modify s (·.withInbox inbox)).roll = n.roll := roll_modify_same n s fun _ => rfl
    refine ⟨{ kind := .error }, n.roll, .ignored, ?_⟩
    rw [roll_haltInbound (session?_modify found), same]
  | @late ses m inbox found =>
    have same : (n.modify s (·.withInbox inbox)).roll = n.roll := roll_modify_same n s fun _ => rfl
    obtain ⟨ses', found', _⟩ := loops_handle m (session?_modify found)
    exact ⟨m, _, same ▸ shown_handle _ s m, roll_haltInbound found'⟩
  | @shutdown ses rest found =>
    have same : (n.modify s fun ses => { ses with commands := rest }).roll = n.roll :=
      roll_modify_same n s fun _ => rfl
    refine ⟨{ kind := .error }, n.roll, .ignored, ?_⟩
    rw [roll_haltOutbound (session?_modify found), same]
  | @unsent n₁ ses c rest found _ _ _ _ failed =>
    have same : (n.modify s fun ses => { ses with commands := rest }).roll = n.roll :=
      roll_modify_same n s fun _ => rfl
    obtain ⟨ses', found', _⟩ := loops_handle c.message (session?_modify found)
    cases eq_of_sendNow failed
    exact ⟨c.message, _, same ▸ shown_handle _ s c.message, roll_haltOutbound found'⟩

/-! ## Tenures -/

section Tenures

variable {threads : Nat → Option Thread} {i : Nat} {ses : Session} {id : ContractId} {e : Joining}
  {how : Showing} {l : Leaving}

theorem roll_standing (found : n.session? s = some ses) (f : Session → Session) :
    (n.modify s f).roll.standing s = (f ses).standing := by
  rw [roll_modify found, Roll.standing_put_self]

theorem tenure_registers (found : n.session? s = some ses) (h : Tenure n.roll threads s)
    (busy : threads i = some (.registers s id e how)) :
    Tenure ((Thread.registers s id e how).next n).1.roll
        (Function.update threads i ((Thread.registers s id e how).next n).2) s ∧
      (∀ t, s ≠ t → ∀ k, ((Thread.registers s id e how).next n).1.directory.get? k = some t ↔
        n.directory.get? k = some t) ∧
        ((((Thread.registers s id e how).next n).1.roll.standing s).phase = .created ∨
          (((Thread.registers s id e how).next n).1.roll.standing s).Identified) := by
  obtain ⟨created, knows, entries, alone⟩ := h.of_registers busy
  have here := standing_of_found found
  rw [here] at created knows
  have unchanged (f : Session → Session) (t : SessionId) (_ : s ≠ t) (k : String) :
      (n.modify s f).directory.get? k = some t ↔ n.directory.get? k = some t := Iff.rfl
  have still (f : Session → Session) (same : (f ses).phase = .created) :
      ((n.modify s f).roll.standing s).phase = .created ∨
        ((n.modify s f).roll.standing s).Identified := .inl (by rw [roll_standing found]; exact same)
  cases e with
  | flag =>
    exact ⟨h.registers_on busy (roll_standing found _) created rfl rfl, unchanged _, still _ created⟩
  | identity =>
    exact ⟨h.registers_on busy (roll_standing found _) created ⟨knows, rfl⟩ rfl, unchanged _,
      still _ created⟩
  | place =>
    exact ⟨h.registers_on busy (roll_standing found _) created ⟨knows.1, knows.2, rfl⟩ rfl,
      unchanged _, still _ created⟩
  | tell =>
    rcases n.send_cases s { kind := .registered } with ⟨_, sent⟩ | ⟨_, link, _, _, sent⟩
    · simp only [Thread.next, Joining.next, sent]
      exact ⟨h.registers_on busy here created knows rfl, fun _ _ _ => trivial, .inl (here ▸ created)⟩
    · simp only [Thread.next, Joining.next, sent]
      exact ⟨h.registers_on busy (roll_standing found _) created knows rfl, unchanged _,
        still _ created⟩
  | establish =>
    have announced : (n.modify s Session.announce).roll = n.roll :=
      (Steady.modify n s fun ses _ => ses.talks_announce.steady).roll
    have standing : ((n.modify s Session.announce).setPhase s .established).roll.standing s =
        { ses.standing with phase := .established } := by
      rw [roll_setPhase announced (session?_modify found), Roll.standing_put_self, here]
    have directory : ((n.modify s Session.announce).setPhase s .established).directory =
        n.directory := rfl
    have done (th : Thread) (follows : some (.follows s how) = some th) : ¬ th.Engaged := by
      cases follows
      exact not_false
    simp only [Thread.next, Joining.next]
    generalize (n.modify s Session.announce).setPhase s .established = n' at standing directory ⊢
    have identified : (n'.roll.standing s).Identified := by
      rw [standing]
      exact ⟨id, knows.2⟩
    exact ⟨h.established busy (here ▸ standing) directory done, fun t _ k => by rw [directory],
      .inr identified⟩
  | undo l =>
    cases l with
    | strike =>
      have on : (n.session? s).any (·.isRegistered) = true := by
        rw [found]
        exact knows.1
      simp only [Thread.next, Joining.next, Leaving.next, on, if_true, Option.map_some]
      exact ⟨h.registers_on busy (roll_standing found _) created ⟨rfl, knows.2.2⟩ rfl, unchanged _,
        still _ created⟩
    | look =>
      have place : (n.session? s).bind (·.place) = some (ContractInstance.ofName id.name) := by
        rw [found]
        exact knows.2
      simp only [Thread.next, Joining.next, Leaving.next, place, Option.map_some]
      exact ⟨h.registers_on busy here created ⟨knows.1, rfl⟩ rfl, fun _ _ _ => trivial,
        .inl (here ▸ created)⟩
    | vacate key =>
      obtain ⟨off, rfl⟩ := knows
      have done (th : Thread) (follows : some (.follows s how) = some th) : ¬ th.Engaged := by
        cases follows
        exact not_false
      obtain ⟨none, others⟩ := Tenure.get?_vacate entries
      simp only [Thread.next, Joining.next, Leaving.next, Option.map_none]
      exact ⟨.out (here ▸ off) none (Tenure.idle_of_alone alone done), others, .inl (here ▸ created)⟩

theorem tenure_deregisters (h : Tenure n.roll threads s) (free : ¬ Held threads s)
    (busy : threads i = some (.deregisters s l)) :
    Tenure (l.next n s).1.roll
        (Function.update threads i ((l.next n s).2.map (.deregisters s))) s ∧
      ∀ t, s ≠ t → ∀ k, (l.next n s).1.directory.get? k = some t ↔
        n.directory.get? k = some t := by
  cases l with
  | strike =>
    by_cases on : (n.session? s).any (·.isRegistered) = true
    · obtain ⟨ses, found, registered⟩ := (Option.any_eq_true ..).1 on
      have here := standing_of_found found
      simp only [Leaving.next, on, if_true, Option.map_some]
      refine ⟨h.struck free ?_ ?_ rfl, fun _ _ _ => Iff.rfl⟩
      · rw [here]
        exact registered
      · rw [roll_standing found, here]
        rfl
    · have off : (n.roll.standing s).isRegistered = false := by
        cases found : n.session? s with
        | none => rw [standing_of_missing found]
        | some ses =>
          rw [found] at on
          rw [standing_of_found found]
          exact Bool.eq_false_iff.2 on
      simp only [Leaving.next, if_neg on, Option.map_none]
      refine ⟨h.reassign ?_ (fun _ now => by cases now) fun _ => off, fun _ _ _ => trivial⟩
      rintro ⟨th, busy', _, engaged⟩
      cases busy.symm.trans busy'
      exact engaged
  | look =>
    obtain ⟨off, past, key, ⟨i', place, rfl⟩, entries, alone⟩ :=
      h.of_deregisters busy fun same => by cases same
    have named : (n.session? s).bind (·.place) = some i' := by
      cases found : n.session? s with
      | none =>
        rw [standing_of_missing found] at place
        cases place
      | some ses =>
        rw [standing_of_found found] at place
        exact place
    simp only [Leaving.next, named, Option.map_some]
    refine ⟨.leaving (l := .vacate i'.key) (Function.update_self ..) off past rfl entries
      fun j engaged => ?_, fun _ _ _ => trivial⟩
    rcases Tenure.engages_update engaged with ⟨same, _⟩ | ⟨_, engaged⟩
    · exact same
    · exact alone j engaged
  | vacate key =>
    obtain ⟨off, _, key', owes, entries, alone⟩ :=
      h.of_deregisters busy fun same => by cases same
    cases owes
    obtain ⟨none, others⟩ := Tenure.get?_vacate entries
    simp only [Leaving.next, Option.map_none]
    exact ⟨.out off none (Tenure.idle_of_alone alone fun _ now => by cases now), others⟩

/-- Giving a key up leaves a session as what it is known. -/
theorem standing_leaving (n : Node) (s : SessionId) (l : Leaving) : ∃ isRegistered,
    (l.next n s).1.roll.standing s = { n.roll.standing s with isRegistered } := by
  cases l with
  | strike =>
    by_cases on : (n.session? s).any (·.isRegistered) = true
    · obtain ⟨ses, found, _⟩ := (Option.any_eq_true ..).1 on
      refine ⟨false, ?_⟩
      simp only [Leaving.next, on, if_true]
      rw [roll_standing found, standing_of_found found]
      rfl
    · simp only [Leaving.next, if_neg on]
      exact ⟨_, rfl⟩
  | look | vacate => exact ⟨_, rfl⟩

end Tenures

end Node

end ContractNode
