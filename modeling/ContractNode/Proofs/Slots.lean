import ContractNode.Proofs.Books

/-!
# Response slots in use

* `Slot.Use` : what is done to a slot from outside;
* `Slot.Tally` : a slot with what has come of its uses, and `Slot.Tally.use`, one more use;
* `Slot.Tally.Fair` : what was received is what was taken in, in order, less at most one message;
* `Slot.Tally.Again` : a message has been received, and whoever received it holds on;
* `accepted_once_iff` : a slot takes one message in, unless it is notified again after that;
* `accepted_twice` : a context that is notified, read and notified again yields both messages.
-/

namespace ContractNode

namespace Slot

inductive Use
  | notify (m : Message)
  /-- Somebody asks for the receiving end. -/
  | take
  | receive
  | drop

/-- A slot, with what has come of its uses so far. -/
structure Tally where
  slot : Slot
  /-- The messages that were taken in. -/
  accepted : List Message := []
  /-- The messages that the receiving end yielded. -/
  received : List Message := []
  /-- How often the receiving end was handed out. -/
  handed : Nat := 0

namespace Tally

/-- What a use comes to. The receiving end has to be held for it to be read or given up. -/
def use (t : Tally) : Use → Tally
  | .notify m =>
    { t with
      slot := (t.slot.notify m).2
      accepted := if (t.slot.notify m).1 then t.accepted ++ [m] else t.accepted }
  | .take => { t with slot := t.slot.take.2, handed := t.handed + t.slot.take.1.toNat }
  | .receive =>
    if t.slot.receiver = .held then
      { t with slot := t.slot.receive.2, received := t.received ++ t.slot.receive.1.toList }
    else t
  | .drop => if t.slot.receiver = .held then { t with slot := t.slot.drop } else t

def after (t : Tally) (uses : List Use) : Tally := uses.foldl use t

theorem after_concat (t : Tally) (uses : List Use) (u : Use) :
    t.after (uses ++ [u]) = (t.after uses).use u :=
  List.foldl_concat ..

/-! ## What every use keeps -/

/-- What was received is what was taken in, in the same order, less at most one message. That one
is in the slot still, unless the receiving end was given up. -/
structure Fair (t : Tally) : Prop where
  order : ∃ rest, t.accepted = t.received ++ rest ∧ rest.length ≤ 1 ∧
    (t.slot.receiver ≠ .dropped → rest = t.slot.message.toList)
  handed : t.handed = if t.slot.receiver = .unclaimed then 0 else 1

theorem fair_fresh : Fair ⟨{}, [], [], 0⟩ := ⟨⟨[], rfl, Nat.zero_le 1, fun _ => rfl⟩, rfl⟩

/-- An empty slot is free while somebody may receive from it. -/
theorem isFree_iff {s : Slot} : s.isFree = true ↔ s.message = none ∧ s.receiver ≠ .dropped := by
  simp [isFree]

/-- What is notified is taken in when all that came before was received, and the receiving end was
not given up. -/
theorem notify_iff {t : Tally} (fair : t.Fair) (m : Message) :
    (t.slot.notify m).1 = true ↔ t.accepted = t.received ∧ t.slot.receiver ≠ .dropped := by
  obtain ⟨rest, order, _, kept⟩ := fair.order
  rw [notify_fst, isFree_iff, order, List.append_right_eq_self]
  refine and_congr_left fun holds => ?_
  rw [kept holds, Option.toList_eq_nil_iff]

theorem fair_notify {t : Tally} (fair : t.Fair) (m : Message) : (t.use (.notify m)).Fair := by
  have taken := notify_iff fair m
  refine ⟨?_, by simpa only [use, receiver_notify] using fair.handed⟩
  simp only [use, message_notify, receiver_notify]
  rw [← notify_fst t.slot m]
  cases new : (t.slot.notify m).1 with
  | false => exact fair.order
  | true =>
    refine ⟨[m], ?_, Nat.le_refl 1, fun _ => rfl⟩
    rw [if_pos rfl, (taken.1 new).1]

theorem fair_take {t : Tally} (fair : t.Fair) : (t.use .take).Fair := by
  obtain ⟨⟨receiver, message⟩, accepted, received, handed⟩ := t
  cases receiver with
  | unclaimed =>
    obtain ⟨⟨rest, order, short, kept⟩, none⟩ := fair
    exact ⟨⟨rest, order, short, fun _ => kept Receiver.noConfusion⟩, congrArg (· + 1) none⟩
  | held => exact fair
  | dropped => exact fair

/-- Whoever holds the receiving end receives what is left of what was taken in. -/
theorem received_receive {t : Tally} (fair : t.Fair) (held : t.slot.receiver = .held) :
    (t.use .receive).received = t.accepted := by
  obtain ⟨rest, order, _, kept⟩ := fair.order
  rw [kept (by rw [held]; decide)] at order
  rw [order, use, if_pos held]
  rfl

theorem fair_receive {t : Tally} (fair : t.Fair) : (t.use .receive).Fair := by
  by_cases held : t.slot.receiver = .held
  · have received := received_receive fair held
    rw [use, if_pos held] at received ⊢
    refine ⟨⟨[], ?_, Nat.zero_le 1, fun _ => rfl⟩, fair.handed⟩
    rw [received, List.append_nil]
  · rwa [use, if_neg held]

theorem fair_drop {t : Tally} (fair : t.Fair) : (t.use .drop).Fair := by
  by_cases held : t.slot.receiver = .held
  · obtain ⟨⟨rest, order, short, _⟩, handed⟩ := fair
    rw [held] at handed
    rw [use, if_pos held]
    exact ⟨⟨rest, order, short, fun holds => absurd rfl holds⟩, handed⟩
  · rwa [use, if_neg held]

theorem fair_use {t : Tally} (fair : t.Fair) (u : Use) : (t.use u).Fair := by
  cases u with
  | notify m => exact fair_notify fair m
  | take => exact fair_take fair
  | receive => exact fair_receive fair
  | drop => exact fair_drop fair

theorem fair_after {t : Tally} (fair : t.Fair) (uses : List Use) : (t.after uses).Fair := by
  induction uses using List.reverseRecOn with
  | nil => exact fair
  | append_singleton uses u ih =>
    rw [after_concat]
    exact fair_use ih u

/-! ## When a second message is taken in -/

/-- A message has been received, and the receiving end has not been given up since. -/
def Again (t : Tally) : Prop := t.received ≠ [] ∧ t.slot.receiver ≠ .dropped

/-- A use takes in one message, or none. -/
theorem accepted_use (t : Tally) (u : Use) :
    (∃ m, u = .notify m ∧ (t.slot.notify m).1 = true ∧
      (t.use u).accepted = t.accepted ++ [m]) ∨ (t.use u).accepted = t.accepted := by
  cases u with
  | notify m =>
    rw [use]
    split
    · rename_i taken
      exact .inl ⟨m, rfl, taken, rfl⟩
    · exact .inr rfl
  | take => exact .inr rfl
  | receive => exact .inr (by rw [use]; split <;> rfl)
  | drop => exact .inr (by rw [use]; split <;> rfl)

theorem accepted_prefix_after (t : Tally) (uses : List Use) :
    t.accepted <+: (t.after uses).accepted := by
  induction uses using List.reverseRecOn with
  | nil => exact List.prefix_refl _
  | append_singleton uses u ih =>
    rw [after_concat]
    refine ih.trans ?_
    obtain ⟨m, _, _, more⟩ | same := (t.after uses).accepted_use u
    · exact ⟨[m], more.symm⟩
    · exact ⟨[], by rw [same, List.append_nil]⟩

/-- A message that follows others is taken in while whoever received them holds on. -/
theorem again_of_notify {t : Tally} (fair : t.Fair) {m : Message}
    (taken : (t.slot.notify m).1 = true) (others : t.accepted ≠ []) : t.Again := by
  obtain ⟨received, holds⟩ := (notify_iff fair m).1 taken
  exact ⟨received ▸ others, holds⟩

/-- When a slot is notified while whoever received a message holds on, a second message is there:
this one, or one that came before it. -/
theorem two_of_again {t : Tally} (fair : t.Fair) (again : t.Again) (m : Message) :
    2 ≤ (t.use (.notify m)).accepted.length := by
  have one : 1 ≤ t.received.length := List.length_pos_iff.2 again.1
  obtain ⟨rest, order, _, _⟩ := fair.order
  have length := congrArg List.length order
  rw [List.length_append] at length
  rw [use]
  split
  · rw [List.length_append, List.length_singleton]
    omega
  · rename_i refused
    have some : rest ≠ [] := by
      rintro rfl
      exact refused ((notify_iff fair m).2 ⟨order.trans (List.append_nil _), again.2⟩)
    have := List.length_pos_iff.2 some
    show 2 ≤ t.accepted.length
    omega

/-- A slot takes in at most one message exactly when nobody notifies it while whoever received a
message from it holds on. -/
theorem accepted_le_one_iff {t : Tally} (fair : t.Fair) (none : t.accepted = []) (uses : List Use) :
    (t.after uses).accepted.length ≤ 1 ↔
      ∀ before m later, uses = before ++ .notify m :: later → ¬ (t.after before).Again := by
  constructor
  · rintro once before m later rfl again
    have two := two_of_again (fair_after fair before) again m
    have more := (((t.after before).use (.notify m)).accepted_prefix_after later).length_le
    rw [after, List.foldl_append] at once
    exact absurd (Nat.le_trans two (Nat.le_trans more once)) (by decide)
  · intro never
    induction uses using List.reverseRecOn with
    | nil => simp [after, none]
    | append_singleton uses u ih =>
      have once := ih fun before m later is =>
        never before m (later ++ [u]) (by rw [is, List.append_assoc]; rfl)
      rw [after_concat]
      obtain ⟨m, rfl, taken, more⟩ | same := (t.after uses).accepted_use u
      · have first : (t.after uses).accepted = [] := by
          by_contra others
          exact never uses m [] rfl (again_of_notify (fair_after fair uses) taken others)
        rw [more, first]
        exact Nat.le_refl 1
      · rwa [same]

end Tally

end Slot

/-! ## The slot of a context -/

/-- The response slot of a context before anybody has used it. -/
def Grant.slot (g : Grant) (channel tx : String) (signedProposal : Option SignedProposal)
    (proposal : Option Proposal) : Slot.Tally :=
  { slot := (g.context channel tx signedProposal proposal).slot }

theorem Grant.slot_fair (g : Grant) (channel tx : String) (signedProposal : Option SignedProposal)
    (proposal : Option Proposal) : (g.slot channel tx signedProposal proposal).Fair := by
  cases g <;> exact Slot.Tally.fair_fresh

/-- However the response slot of a context is used, its receiving end is handed out at most once
and yields messages that were taken in, in the order in which they were, each one once; all of
them but at most one, which is in the slot still unless the receiving end was given up. A further
message is taken in exactly when all of them were received and the receiving end was not given up,
and whoever holds that gets what is left. So the slot takes in at most one message exactly when it
is not notified while somebody holds the receiving end who has received a message from it. -/
theorem accepted_once_iff (g : Grant) (channel tx : String)
    (signedProposal : Option SignedProposal) (proposal : Option Proposal) (uses : List Slot.Use) :
    let fresh := g.slot channel tx signedProposal proposal
    let t := fresh.after uses
    t.handed ≤ 1 ∧
      (∃ rest, t.accepted = t.received ++ rest ∧ rest.length ≤ 1 ∧
        (t.slot.receiver ≠ .dropped → rest = t.slot.message.toList)) ∧
      (∀ m, (t.slot.notify m).1 = true ↔
        t.accepted = t.received ∧ t.slot.receiver ≠ .dropped) ∧
      (t.slot.receiver = .held → (t.use .receive).received = t.accepted) ∧
      (t.accepted.length ≤ 1 ↔
        ∀ before m later, uses = before ++ .notify m :: later → ¬ (fresh.after before).Again) := by
  intro fresh t
  have start := g.slot_fair channel tx signedProposal proposal
  have fair : t.Fair := Slot.Tally.fair_after start uses
  refine ⟨?_, fair.order, Slot.Tally.notify_iff fair, Slot.Tally.received_receive fair,
    Slot.Tally.accepted_le_one_iff start (by cases g <;> rfl) uses⟩
  rw [fair.handed]
  split <;> decide

/-- A context is notified, what it got is received, and it is notified again: the second message is
taken in, and received too. -/
theorem accepted_twice :
    let t := ((Grant.rights none none).slot "ch" "tx1" none none).after
      [.take, .notify ⟨.completed, "ch", "tx1", [], none⟩, .receive,
        .notify ⟨.error, "ch", "tx1", [], none⟩, .receive]
    t.accepted = [⟨.completed, "ch", "tx1", [], none⟩, ⟨.error, "ch", "tx1", [], none⟩] ∧
      t.received = t.accepted := by
  decide

end ContractNode
