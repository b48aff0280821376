import ContractNode.Proofs.Desks

/-!
# What comes from outside to a desk

* `trail_openSession`, `trail_breakSend` : a desk is opened, or mended;
* `trail_contractSends`, `trail_contractReads` : the contract sends and reads;
* `trail_send`, `trail_enqueue`, `trail_ready`, `trail_started` : the node sends and orders.
-/

namespace ContractNode

theorem Link.eq_of_deliver {l l' : Link} {a : Except StreamError Message}
    (delivered : l.deliver a = .ok l') :
    l' = { l with inbox := { l.inbox with queue := l.inbox.queue ++ [a] } } := by
  unfold deliver at delivered
  split at delivered
  · cases delivered
  · rename_i p sent
    cases delivered
    rw [(Pipe.send_eq_some_iff.1 sent).2.2]

/-- What is on its way from the contract is on the desk if it is a message. -/
theorem Session.desk_deliver {ses : Session} {link : Link} {a : Except StreamError Message}
    (delivered : ses.link.deliver a = .ok link) (calls : List Job) :
    { ses with link }.desk calls =
      { ses.desk calls with inbox := (ses.desk calls).inbox ++ a.toOption.toList } := by
  have inbox : (ses.link.inbox.queue ++ [a]).filterMap Except.toOption =
      ses.link.inbox.queue.filterMap Except.toOption ++ a.toOption.toList := by
    rw [List.filterMap_append]
    cases a with
    | error e => rfl
    | ok m => rfl
  rw [Link.eq_of_deliver delivered]
  unfold desk isOpen
  rw [inbox]

namespace Node

variable {n n' : Node} {s t : SessionId} {ses : Session}

section Acts

variable {Q : Minute → Prop}

theorem trail_still (same : n'.desk s = n.desk s) :
    ∃ es, Desk.Trail (n.desk s) es (n'.desk s) ∧ ∀ e ∈ es, Q e :=
  ⟨[], same ▸ .nil _, by simp⟩

theorem trail_modify {f : Session → Session} (t : SessionId)
    (h : ∀ ses, t = s → n.session? t = some ses →
      ∃ es, Desk.Trail (ses.desk (n.ownCalls s)) es ((f ses).desk (n.ownCalls s)) ∧ ∀ e ∈ es, Q e) :
    ∃ es, Desk.Trail (n.desk s) es ((n.modify t f).desk s) ∧ ∀ e ∈ es, Q e := by
  by_cases same : t = s
  · subst same
    cases found : n.session? t with
    | none =>
      refine trail_still (desk_apart n t t fun _ ses found' => ?_)
      rw [found] at found'
      cases found'
    | some ses =>
      rw [desk_modify found, desk_found found]
      exact h ses rfl found
  · exact trail_still (desk_modify_other same)

theorem trail_openSession (n : Node) (config : SessionConfig) (access : AccessPolicy)
    (launcher : Launcher) (s : SessionId) (built : 0 < config.workers)
    (mended : (n.desk s).isOpen = false → Q .mended) :
    ∃ es, Desk.Trail (n.desk s) es ((n.openSession config access launcher).2.desk s) ∧
      ∀ e ∈ es, Q e := by
  have same : (n.openSession config access launcher).2.ownCalls s = n.ownCalls s := rfl
  cases found : n.session? s with
  | some ses =>
    have found' := session?_of_openSession config access launcher found
    exact trail_still (by rw [desk_found found', desk_found found, same])
  | none =>
    have absent : n.desk s = { ({} : Session).desk (n.ownCalls s) with isOpen := false } := by
      simp only [desk, found]
    cases found' : (n.openSession config access launcher).2.session? s with
    | none =>
      exact trail_still (by rw [absent]; simp only [desk, found', same])
    | some ses =>
      rcases session?_openSession found' with there | ⟨_, rfl⟩
      · rw [found] at there
        cases there
      · refine ⟨[.mended], .single ?_, by simpa using mended (by rw [absent])⟩
        rw [desk_found found', same, absent]
        refine Desk.step_mended rfl rfl rfl fun goesOn => ⟨goesOn, fun _ => ?_⟩
        exact ⟨built, rfl, .refl _, by simp [Session.desk, WorkerPool.ofSize]⟩

theorem trail_contractSends (n : Node) (s t : SessionId) (m : Message)
    (arrived : t = s → Q (.arrived m)) :
    ∃ es, Desk.Trail (n.desk s) es ((n.contractSends t m).2.desk s) ∧ ∀ e ∈ es, Q e := by
  unfold contractSends fromContract
  split
  · exact trail_still rfl
  · rename_i ses found
    split
    · exact trail_still rfl
    · rename_i link delivered
      refine trail_modify t fun ses' same found' => ?_
      cases Option.some.inj (found.symm.trans found')
      refine ⟨[.arrived m], .single ?_, by simpa using arrived same⟩
      rw [Session.desk_deliver delivered]
      exact (ses.desk (n.ownCalls s)).step_arrived m

theorem trail_breakReceive (n : Node) (s t : SessionId) (e : StreamError) :
    ∃ es, Desk.Trail (n.desk s) es ((n.breakReceive t e).2.desk s) ∧ ∀ e ∈ es, Q e := by
  unfold breakReceive fromContract
  split
  · exact trail_still rfl
  · rename_i ses found
    split
    · exact trail_still rfl
    · rename_i link delivered
      refine trail_still (desk_apart n t s fun _ ses' found' calls => ?_)
      cases Option.some.inj (found.symm.trans found')
      rw [Session.desk_deliver delivered]
      show { ses.desk calls with inbox := (ses.desk calls).inbox ++ [] } = _
      rw [List.append_nil]

theorem trail_contractReads (n : Node) (s t : SessionId) (read : ∀ ms, t = s → Q (.read ms)) :
    ∃ es, Desk.Trail (n.desk s) es ((n.drain t).2.desk s) ∧ ∀ e ∈ es, Q e := by
  unfold drain
  split
  · exact trail_still rfl
  · refine trail_modify t fun ses same _ => ⟨[.read ses.link.outbox.queue], .single ?_, ?_⟩
    · exact (ses.desk (n.ownCalls s)).step_read
    · simpa using read _ same

theorem trail_breakSend (n : Node) (s t : SessionId) (broken : Bool) (aside : Q .aside)
    (mended : (n.desk s).isOpen = false → Q .mended) :
    ∃ es, Desk.Trail (n.desk s) es ((n.breakSend t broken).desk s) ∧ ∀ e ∈ es, Q e := by
  refine trail_modify t fun ses same found => ?_
  have before := desk_found found
  cases broken with
  | true =>
    refine ⟨[.aside], .single (Desk.step_shut ?_), by simpa using aside⟩
    refine ⟨?_, fun goesOn => ⟨goesOn, rfl, rfl⟩, rfl, rfl, rfl⟩
    simp [Session.desk, Session.isOpen]
  | false =>
    cases was : ses.link.broken with
    | false =>
      have still : { ses with link := { ses.link with broken := false } } = ses := by rw [← was]
      refine ⟨[], ?_, by simp⟩
      show Desk.Trail _ _ ({ ses with link := { ses.link with broken := false } }.desk _)
      rw [still]
      exact .nil _
    | true =>
      have shut : (n.desk s).isOpen = false := by
        rw [← same, before]
        simp [Session.desk, Session.isOpen, was]
      refine ⟨[.mended], .single (Desk.step_mended rfl rfl rfl (.of_eq rfl rfl rfl rfl)), ?_⟩
      simpa using mended shut

theorem trail_contractDrops (n : Node) (s t : SessionId) (aside : Q .aside) :
    ∃ es, Desk.Trail (n.desk s) es ((n.contractDrops t).desk s) ∧ ∀ e ∈ es, Q e := by
  refine trail_modify t fun ses _ _ => ⟨[.aside], .single (Desk.step_shut ?_), by simpa using aside⟩
  refine ⟨?_, fun goesOn => ⟨goesOn, rfl, rfl⟩, rfl, rfl, rfl⟩
  simp [Session.desk, Session.isOpen, Link.dropContract, Pipe.abandon]

theorem trail_send (n : Node) (s t : SessionId) (m : Message) (said : t = s → Q (.said m)) :
    ∃ es, Desk.Trail (n.desk s) es ((n.send t m).2.desk s) ∧ ∀ e ∈ es, Q e := by
  unfold Node.send
  split
  · exact trail_still rfl
  · rename_i ses found
    cases sent : ses.send m with
    | error e => exact trail_still rfl
    | ok ses' =>
      refine trail_modify t fun ses₁ same found₁ => ?_
      cases Option.some.inj (found.symm.trans found₁)
      unfold Session.send at sent
      cases linked : ses.link.send m with
      | error e =>
        rw [linked] at sent
        cases sent
      | ok link =>
        rw [linked] at sent
        cases sent
        refine ⟨[.said m], .single ?_, by simpa using said same⟩
        rw [Link.eq_of_send linked]
        exact (ses.desk (n.ownCalls s)).step_said m

theorem trail_enqueue (n : Node) (s t : SessionId) (c : Command)
    (ordered : t = s → Q (.ordered c)) :
    ∃ es, Desk.Trail (n.desk s) es ((n.enqueue t c).2.desk s) ∧ ∀ e ∈ es, Q e := by
  unfold Node.enqueue
  split
  · exact trail_still rfl
  · refine trail_modify t fun ses same _ => ⟨[.ordered c], .single ?_, by simpa using ordered same⟩
    exact (Desk.step_ordered _ c).comes (ses.comes_enqueue _ c)

theorem trail_ready (n : Node) (s t : SessionId) (channel tx : String)
    (signedProposal : Option SignedProposal) (proposal : Option Proposal)
    (ordered : ∀ c, c.message.kind = .ready → Q (.ordered c)) :
    ∃ es, Desk.Trail (n.desk s) es ((n.ready t channel tx signedProposal proposal).2.desk s) ∧
      ∀ e ∈ es, Q e := by
  have readied := readied_ready n t channel tx signedProposal proposal
  generalize n.ready t channel tx signedProposal proposal = r at readied ⊢
  obtain ⟨outcome, n'⟩ := r
  cases readied with
  | refused => exact trail_still rfl
  | stopped => exact trail_still (desk_apart n t s fun _ _ _ _ => rfl)
  | waits m _ _ _ kind =>
    let order : Command := { message := m, forward := true, sync := true }
    refine trail_modify t fun ses same _ =>
      ⟨[.ordered order], .single ?_, by simpa using ordered order kind⟩
    exact Desk.step_ordered (ses.desk (n.ownCalls s)) order

theorem trail_started {label : String} {kind : MessageKind} {P : Context → Prop}
    (started : Started n t label kind P n') (s : SessionId)
    (ordered : ∀ c, c.message.kind = kind → Q (.ordered c)) :
    ∃ es, Desk.Trail (n.desk s) es (n'.desk s) ∧ ∀ e ∈ es, Q e := by
  cases started with
  | refused e => exact trail_still (desk_outside rfl rfl s)
  | @stopped ses c e found fresh off given =>
    have abandoned := desk_inside (inside_abandoned n t c) s
    exact trail_still ((desk_outside rfl rfl s).trans abandoned)
  | waits m found fresh on given asked =>
    have apart : (Origin.caller label).asked? s = none := rfl
    obtain ⟨es, trail, orders⟩ := trail_began apart found _ m
    exact ⟨es, trail, fun e mem => orders e mem ▸ ordered _ asked⟩

end Acts

end Node

end ContractNode
