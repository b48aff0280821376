import ContractNode.Proofs.Spent

/-!
# Sessions that have ended

Once a session has ended, nothing can be done with it any more, whatever happens to the node, and
whatever threads are in the middle of. What is on its way to its contract still gets there.

* `Node.Gone`, `ended_stages` : what is left of a session that has ended;
* `taken_stage`, `unlisted_stages` : it is not listed again;
* `Scene.Listens`, `filled_of_listens` : what a contract reads while other things happen;
* `silent_of_ended` : what can happen to a session that has ended.
-/

namespace ContractNode

namespace Node

variable {n : Node} {s : SessionId} {ses : Session}

/-- A session has ended, and nothing can be sent on it. It was started, and cannot be again. -/
structure Gone (n : Node) (s : SessionId) : Prop where
  phase : n.At s .ended
  send : ∀ m, ∃ e, n.send s m = (.error e, n)
  start : n.start s = (.error .alreadyRunning, n)

theorem gone_of_over (past : Scene.Over n) (found : n.session? s = some ses)
    (ended : ses.phase = .ended) : n.Gone s := by
  refine ⟨⟨ses, found, ended⟩, fun m => ?_, ?_⟩
  · rcases n.send_cases s m with failed | ⟨ses', link, found', sent, _⟩
    · exact failed
    · cases Option.some.inj (found.symm.trans found')
      rcases ses.link.send_cases m with ⟨e, failed⟩ | ⟨more, _⟩
      · rw [failed] at sent
        cases sent
      · rw [past.mute s ses found ended] at more
        cases more
  · have on : ses.outbound ≠ .idle := (past.driven s ses found).ended ended
    unfold start Session.start
    simp only [found, on, if_false]

/-- What the contract of a session would receive next. -/
def receives (n : Node) (s : SessionId) : Received Message :=
  ((n.session? s).map (·.link.outbox.receive.1)).getD .nothing

/-- The contract of a session has read what was on its way to it, but for `rest`. -/
def unread (n : Node) (s : SessionId) (rest : List Message) : Node :=
  n.modifyLink s fun l => { l with outbox := { l.outbox with queue := rest } }

theorem receives_found (found : n.session? s = some ses) :
    n.receives s = ses.link.outbox.receive.1 := by
  unfold receives
  rw [found]
  rfl

end Node

/-- A closed pipe gives out what is there, and then comes to its end. -/
theorem Pipe.receive_of_closed {α : Type} {p : Pipe α} (closed : p.closed = true) :
    p.receive.1 = p.queue.head?.elim .endOfStream .item := by
  unfold Pipe.receive
  cases p.queue with
  | nil => simp [closed]
  | cons a rest => rfl

namespace Scene

variable {P : Act → Prop} {x x' x₁ x₂ : Scene} {s t : SessionId} {i : Nat} {th : Thread} {ses : Session}

/-! ## Entries of the directory -/

theorem get?_of_withdraw {r : Roll} {k : String}
    (entry : (r.withdraw t).directory.get? k = some s) : r.directory.get? k = some s := by
  unfold Roll.withdraw Roll.without at entry
  split at entry
  · cases place : (r.standing t).place with
    | none =>
      rw [place] at entry
      exact entry
    | some i =>
      rw [place] at entry
      change (r.directory.deregister i.key).get? k = _ at entry
      rw [Directory.get?_deregister] at entry
      split at entry
      · cases entry
      · exact entry
  · exact entry

theorem get?_of_finish {r : Roll} {k : String}
    (entry : (r.finish t).directory.get? k = some s) : r.directory.get? k = some s :=
  get?_of_withdraw (t := t) entry

/-- A session that is shown a message is listed only if it was, or is `created`. -/
theorem taken_shown {r r' : Roll} {m : Message} {k : String} (shown : r.Shown t m r')
    (entry : r'.directory.get? k = some s) :
    r.directory.get? k = some s ∨ (r.standing s).phase = .created := by
  have taken {id : ContractId} {d : Directory} (created : (r.standing t).phase = .created)
      (free : r.directory.register (ContractInstance.ofName id.name).key t = .ok d)
      (entry : d.get? k = some s) :
      r.directory.get? k = some s ∨ (r.standing s).phase = .created := by
    rcases Node.get?_register_cases free entry with ⟨_, rfl⟩ | before
    · exact .inr created
    · exact .inl before
  cases shown with
  | ignored | readied => exact .inl entry
  | enlisted created _ _ free => exact taken created free entry
  | untold created free => exact taken created free (get?_of_withdraw entry)

/-- No entry of a session comes about by a statement. -/
theorem get?_of_next {n : Node} {k : String} (entry : (th.next n).1.directory.get? k = some s) :
    n.directory.get? k = some s := by
  have leaving (t : SessionId) (l : Leaving)
      (entry : (l.next n t).1.directory.get? k = some s) : n.directory.get? k = some s := by
    cases l with
    | strike =>
      simp only [Leaving.next] at entry
      split at entry <;> exact entry
    | look => exact entry
    | vacate key =>
      change (n.directory.deregister key).get? k = _ at entry
      rw [Directory.get?_deregister] at entry
      split at entry
      · cases entry
      · exact entry
  cases th with
  | registers t id e how =>
    rw [node_registers] at entry
    cases e with
    | flag | identity | place | establish => exact entry
    | tell =>
      simp only [Joining.next] at entry
      rcases n.send_cases t { kind := .registered } with ⟨e, sent⟩ | ⟨ses', link, _, _, sent⟩
      · rw [sent] at entry
        exact entry
      · rw [sent] at entry
        exact entry
    | undo l => exact leaving t l entry
  | follows t how =>
    have roll := congrArg Roll.directory (roll_follows n t how)
    change ((Thread.follows t how).next n).1.directory = n.directory at roll
    rwa [roll] at entry
  | deregisters t l => exact leaving t l entry

/-- As long as nobody changes the directory past the sessions, one comes to be listed only when it is
`created`. -/
theorem taken_stage (bySession : ∀ a, P a → a.isByHand = false) (stage : Stage P x x') {k : String}
    (entry : x'.node.directory.get? k = some s) :
    x.node.directory.get? k = some s ∨ (x.node.roll.standing s).phase = .created := by
  cases stage with
  | @move n' move =>
    have after (r : Roll) (roll : n'.roll = r) : r.directory.get? k = some s := by
      rw [← roll]
      exact entry
    rcases Node.roll_move bySession move with same | ⟨t, m, shows⟩ | ⟨t, rfl⟩ | ⟨t, same⟩
    · exact .inl (after _ same)
    · obtain ⟨r, shown, roll | roll⟩ := Node.roll_shows shows
      · exact taken_shown shown (after _ roll)
      · exact taken_shown shown (get?_of_finish (after _ roll))
    · exact .inl (get?_of_withdraw (after _ (Node.roll_deregister x.node t)))
    · exact .inl (get?_of_finish (after _ same))
  | told => exact .inl entry
  | @halts i t n' halts =>
    obtain ⟨m, r, shown, roll⟩ := Node.roll_halts halts
    have entry' : n'.roll.directory.get? k = some s := entry
    rw [roll] at entry'
    exact taken_shown shown entry'
  | @lists i t m how n' ses id d fetches _ _ found created _ _ vacant =>
    have same : n'.roll = x.node.roll := roll_fetches fetches
    rcases Node.get?_register_cases vacant entry with ⟨_, rfl⟩ | before
    · refine .inr ?_
      rw [← same, Node.standing_of_found found]
      exact created
    · exact .inl ((congrArg (·.directory.get? k) same).symm.trans before)
  | next busy => exact .inl (get?_of_next entry)

/-- Things that happen when nobody has a session give its key up while it is being registered. -/
def Orderly (P : Act → Prop) : Scene → Scene → Prop :=
  Relation.ReflTransGen fun x x' => x.Apart ∧ Stage P x x'

theorem orderly_of_moves {n n' : Node} (moves : Node.Moves P n n') :
    Orderly P (still n) (still n') := by
  induction moves with
  | refl => exact .refl
  | tail _ move ih =>
    have apart (n : Node) : (still n).Apart := fun s _ _ _ => not_held_still n s
    exact ih.tail ⟨apart _, .move move fun s held => absurd held (not_held_still _ s)⟩

theorem fair_orderly (bySession : ∀ a, P a → a.isByHand = false)
    {channels historyless system : List String} {drill : Drill}
    (reached : Orderly P (still (Node.withChannels channels historyless system drill)) x) :
    x.Fair := by
  induction reached with
  | refl => exact fair_still (Node.fair_withChannels ..)
  | tail _ stage ih => exact fair_stage bySession ih stage.1 stage.2

/-! ## What a contract reads -/

/-- Whatever happens, the contract of a session stays, and reads as much as it likes of what is on
its way to it, as often as it likes. -/
inductive Listens (P : Act → Prop) (s : SessionId) : Scene → List Message → Scene → Prop
  | refl (x : Scene) : Listens P s x [] x
  | stage {x x₁ x₂ : Scene} {read : List Message} (before : Listens P s x read x₁)
      (stage : Stage (fun a => P a ∧ a.takes s = false) x₁ x₂) : Listens P s x read x₂
  | reads {x x₁ : Scene} {read l rest : List Message} {ses : Session}
      (before : Listens P s x read x₁) (found : x₁.node.session? s = some ses)
      (onItsWay : ses.link.outbox.queue = l ++ rest) :
      Listens P s x (read ++ l) ⟨x₁.node.unread s rest, x₁.threads⟩

/-- The contract may read all that there is. -/
theorem Listens.all {read : List Message} (before : Listens P s x read x')
    (found : x'.node.session? s = some ses) :
    Listens P s x (read ++ ses.link.outbox.queue) ⟨x'.node.act (.contractReads s), x'.threads⟩ := by
  have all : x'.node.act (.contractReads s) = x'.node.unread s [] := by
    show (x'.node.drain s).2 = _
    unfold Node.drain
    rw [found]
    rfl
  rw [all]
  exact .reads before found (List.append_nil _).symm

/-- What is on its way to a contract, and what is sent later, it reads in this order. -/
theorem filled_of_listens {read : List Message} (listens : Listens P s x read x')
    (found : x.node.session? s = some ses) : ∃ ses', x'.node.session? s = some ses' ∧
      ses.link.outbox.Fills { ses'.link.outbox with queue := read ++ ses'.link.outbox.queue } := by
  induction listens with
  | refl => exact ⟨ses, found, .refl _⟩
  | stage _ stage ih =>
    obtain ⟨ses₁, found₁, first⟩ := ih
    obtain ⟨ses₂, found₂, later⟩ := (fills_stage (fun a given => given.2) stage).session ses₁ found₁
    refine ⟨ses₂, found₂, first.trans ?_⟩
    obtain ⟨l, queue, nothing⟩ := later.queue
    exact ⟨⟨l, by rw [queue, List.append_assoc], nothing⟩, later.closed⟩
  | reads _ found' onItsWay ih =>
    obtain ⟨ses₁, found₁, first⟩ := ih
    cases Option.some.inj (found'.symm.trans found₁)
    refine ⟨_, Node.session?_modify found', ?_⟩
    rw [onItsWay, ← List.append_assoc] at first
    exact first

/-! ## Sessions that have ended -/

theorem phase_of_found (found : x.node.session? s = some ses) (ended : ses.phase = .ended) :
    (x.node.roll.standing s).phase = .ended := by
  rw [Node.standing_of_found found]
  exact ended

/-- Nothing is added to what is on its way to a contract once its session has ended. -/
theorem ended_stages (past : x.Early ∧ Over x.node) (found : x.node.session? s = some ses)
    (ended : ses.phase = .ended) (later : Stages P x x') :
    (x'.Early ∧ Over x'.node) ∧ ∃ ses', x'.node.session? s = some ses' ∧ ses'.phase = .ended ∧
      ses'.link.outbox.queue <:+ ses.link.outbox.queue := by
  induction later with
  | refl => exact ⟨past, ses, found, ended, List.suffix_rfl⟩
  | tail _ stage ih =>
    obtain ⟨⟨early, past⟩, ses₁, found₁, ended₁, less⟩ := ih
    refine ⟨⟨early_stage early stage, over_stage early past stage⟩, ?_⟩
    obtain ⟨ses₂, found₂, _, less'⟩ := suffix_stage stage found₁ (past.mute s ses₁ found₁ ended₁)
    have ended₂ := ended_stage early stage (phase_of_found found₁ ended₁)
    rw [Node.standing_of_found found₂] at ended₂
    exact ⟨ses₂, found₂, ended₂, less'.trans less⟩

/-- A session that has ended and is not listed is never listed again. -/
theorem unlisted_stages (bySession : ∀ a, P a → a.isByHand = false) (early : x.Early)
    (ended : (x.node.roll.standing s).phase = .ended)
    (none : ∀ k, x.node.directory.get? k ≠ some s) (later : Stages P x x') (k : String) :
    x'.node.directory.get? k ≠ some s := by
  have stays : x'.Early ∧ (x'.node.roll.standing s).phase = .ended ∧
      ∀ k, x'.node.directory.get? k ≠ some s := by
    induction later with
    | refl => exact ⟨early, ended, none⟩
    | tail _ stage ih =>
      obtain ⟨early₁, ended₁, none₁⟩ := ih
      refine ⟨early_stage early₁ stage, ended_stage early₁ stage ended₁, fun k entry => ?_⟩
      rcases taken_stage bySession stage entry with before | created
      · exact none₁ k before
      · cases ended₁.symm.trans created
  exact stays.2.2 k

/-- Once a session has ended, whatever happens, and whatever threads are in the middle of, it stays
ended: nothing can be sent on it, it cannot be started, and nothing is added to what is on its way to
its contract. What was on its way at the end the contract can read in full, and after that it reads
the end of the stream, and nothing else. In fact whatever was ever on its way it has read by the time
it reads the end of the stream, all of it and in order. The directory does not list the session once
no thread is in the middle of anything about it, as long as nobody changes the directory past the
sessions, or had a session give its key up while it was being registered. -/
theorem silent_of_ended {channels historyless system : List String} {drill : Drill}
    (reached : Stages P (still (Node.withChannels channels historyless system drill)) x)
    (found : x.node.session? s = some ses) (ended : ses.phase = .ended) :
    (∀ x', Stages P x x' → x'.node.Gone s ∧ x'.node.outbox s <:+ x.node.outbox s) ∧
    (∀ x' read, Listens P s x read x' → read ++ x'.node.outbox s = x.node.outbox s ∧
      x'.node.receives s = (x'.node.outbox s).head?.elim .endOfStream .item) ∧
    (∀ x₀ x' read, Listens P s x₀ read x' → x₀.node.outbox s <+: read ++ x'.node.outbox s ∧
      (x'.node.receives s = .endOfStream → x₀.node.outbox s <+: read)) ∧
    ((∀ a, P a → a.isByHand = false) →
      Orderly P (still (Node.withChannels channels historyless system drill)) x → x.Rests s →
        ∀ x', Stages P x x' → ∀ key, x'.node.directory.get? key ≠ some s) := by
  have past := over_stages reached
  have closed := past.2.mute s ses found ended
  refine ⟨fun x' later => ?_, fun x' read listens => ?_, fun x₀ x' read listens => ?_,
    fun bySession orderly rests x' later => ?_⟩
  · obtain ⟨past', ses', found', ended', less⟩ := ended_stages past found ended later
    refine ⟨Node.gone_of_over past'.2 found' ended', ?_⟩
    rw [Node.outbox_found found, Node.outbox_found found']
    exact less
  · obtain ⟨ses', found', more⟩ := filled_of_listens listens found
    obtain ⟨l, queue, nothing⟩ := more.queue
    rw [nothing closed, List.append_nil] at queue
    rw [Node.outbox_found found, Node.outbox_found found', Node.receives_found found']
    exact ⟨queue, Pipe.receive_of_closed (more.closed closed)⟩
  · cases found₀ : x₀.node.session? s with
    | none => simp [Node.outbox, found₀]
    | some ses₀ =>
      obtain ⟨ses', found', more⟩ := filled_of_listens listens found₀
      obtain ⟨l, queue, _⟩ := more.queue
      have all : ses₀.link.outbox.queue <+: read ++ ses'.link.outbox.queue := ⟨l, queue.symm⟩
      rw [Node.outbox_found found₀, Node.outbox_found found', Node.receives_found found']
      refine ⟨all, fun last => ?_⟩
      unfold Pipe.receive at last
      split at last
      · cases last
      · rename_i empty
        rwa [empty, List.append_nil] at all
  · have phase := phase_of_found found ended
    refine unlisted_stages bySession past.1 phase (fun key entry => ?_) later
    obtain ⟨id, _, goes⟩ := ((fair_orderly bySession orderly).listed_iff rests key).1 entry
    exact goes.not_ended phase

/-- A contract registers and goes, without having read anything. -/
def hastyRun : List Act :=
  [.openSession {} {} .directory, .start 0,
    .contractSends 0 { kind := .register, payload := ContractId.codec.encode { name := "cc:1" } },
    .contractCloses 0]

theorem silent_of_ended_hastyRun :
    let n := (Node.withChannels ["ch"] [] [] {}).steps hastyRun
    let n' := n.step (.handle 0 { kind := .register })
    (n.outbox 0).map (·.kind) = [.registered, .ready] ∧ n'.Gone 0 ∧
      (n.act (.contractReads 0)).receives 0 = .endOfStream ∧
        n'.directory.get? "cc:1" ≠ some 0 := by
  intro n n'
  have there : (n.session? 0).any (·.phase = .ended) = true := by decide +kernel
  have sent : (n.outbox 0).map (·.kind) = [.registered, .ready] := by decide +kernel
  have bySession (acts : List Act) (given : acts.all (fun a => !a.isByHand) = true) (a : Act)
      (mem : a ∈ acts) : a.isByHand = false := by
    simpa using List.all_eq_true.1 given a mem
  have moves : Node.Moves (·.isByHand = false) (Node.withChannels ["ch"] [] [] {}) n :=
    Node.moves_steps (bySession hastyRun rfl)
  clear_value n
  obtain ⟨ses, found, ended⟩ := (Option.any_eq_true ..).1 there
  obtain ⟨stays, reads, _, unlisted⟩ :=
    silent_of_ended (stages_of_moves moves) found (of_decide_eq_true ended)
  obtain ⟨all, next⟩ := reads _ _ (Listens.all (.refl (still n)) found)
  have nothing : (n.act (.contractReads 0)).outbox 0 = [] := by
    have onItsWay : (still n).node.outbox 0 = ses.link.outbox.queue := Node.outbox_found found
    rw [List.nil_append, onItsWay] at all
    exact List.append_right_eq_self.1 all
  change (n.act _).receives 0 = ((n.act _).outbox 0).head?.elim _ _ at next
  rw [nothing] at next
  have later : Node.Moves (·.isByHand = false) n (n.steps [.handle 0 { kind := .register }]) :=
    Node.moves_steps (bySession _ rfl)
  exact ⟨sent, (stays _ (stages_of_moves later)).1, next, unlisted (fun _ => id)
    (orderly_of_moves moves) (rests_still n 0) _ (stages_of_moves later) "cc:1"⟩

/-- A session that has ended is listed when somebody enters it in the directory past the session, or
when it was told to give its key up while it was being registered. -/
theorem listed_of_entered :
    (∃ n, n = (Node.withChannels ["ch"] [] [] {}).steps (hastyRun ++ [.registerKey "cc:1" 0]) ∧
      (n.session? 0).map (·.phase) = some .ended ∧ n.directory.get? "cc:1" = some 0) ∧
    ∃ n, Stages (·.isByHand = false) (still (Node.withChannels ["ch"] [] [] {})) (still n) ∧
      (n.session? 0).map (·.phase) = some .ended ∧ n.directory.get? "cc" = some 0 :=
  ⟨⟨_, rfl, by decide +kernel, by decide +kernel⟩, overlapped, stages_overlapped⟩

end Scene

end ContractNode
