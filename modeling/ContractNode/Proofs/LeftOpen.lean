import ContractNode.Proofs.Shut

/-!
# Cursors that are left open

What ends a transaction closes its cursors, with a few exceptions. Requests are carried out, and
executions return, by one statement after the other here, between which anything can happen.

* `Node.LeftOpen`, `Floor.LeftOpen` : a transaction is over, and one of its cursors is open still;
* `Floor.Strands`, `strands_of_stage` : what leaves cursors open;
* `closed_of_stages` : without these, each cursor is closed once when its transaction is over;
* `leftOpen_of_deleted` : a context is deleted, and its cursor is never closed.
-/

namespace ContractNode

namespace Node

variable {n n' : Node} {s t : SessionId} {c : Nat} {id : String} {Q : SessionId → Nat → Prop}

/-! ## What leaves a cursor open -/

/-- A transaction is over, also for the contexts in `Q`, and a cursor of it is open still. -/
structure LeftOpen (Q : SessionId → Nat → Prop) (n : Node) (s : SessionId) (c : Nat) (id : String) :
    Prop where
  past : n.Over s c ∨ Q s c
  reads : n.Reads s c id

/-- The context of an execution is one of those for which transactions are over. -/
abbrev With (Q : SessionId → Nat → Prop) (call : Call) : SessionId → Nat → Prop :=
  fun s c => Q s c ∨ call.session = s ∧ call.context = c

/-- What is left open was open before, or it is so in a context that is an exception. -/
theorem Tight.leftOpen_or {E : SessionId → Nat → Prop} (h : Tight E n n')
    (there : E s c → ∃ ctx, n.context? s c = some ctx) (left : n'.LeftOpen Q s c id) :
    n.LeftOpen Q s c id ∨ E s c ∧ (n.Over s c ∨ Q s c) := by
  by_cases excepted : E s c
  · obtain ⟨ctx, known⟩ := there excepted
    exact .inr ⟨excepted,
      left.past.imp_left fun past => h.ends s c ctx id known (.inr excepted) past⟩
  · have reads := (h.reads s c id left.reads).resolve_right excepted
    have ⟨ses, found, ctx, cursor, known, reading⟩ := reads
    have known' : n.context? s c = some ctx := context?_eq_some_iff.2 ⟨ses, found, known⟩
    exact .inl ⟨left.past.imp_left fun past => h.ends s c ctx id known' (.inl left.reads) past, reads⟩

theorem Tight.leftOpen (h : Tight Nowhere n n') (left : n'.LeftOpen Q s c id) :
    n.LeftOpen Q s c id := (h.leftOpen_or False.elim left).resolve_right fun none => none.1

theorem Tight.reads' (h : Tight Nowhere n n') (reads : n'.Reads s c id) : n.Reads s c id :=
  (h.reads s c id reads).resolve_right False.elim

/-- An execution that has its message waits no longer. Its transaction was over for its context. -/
theorem leftOpen_unheld {call : Call} {own : Context}
    (known : n.context? call.session call.context = some own) (told : own.slot.message ≠ none)
    (left : (n.unheld call).LeftOpen (With Q call) s c id) : n.LeftOpen Q s c id := by
  obtain ⟨past, reads⟩ := (tight_unheld n call).leftOpen left
  refine ⟨?_, reads⟩
  rcases past with past | past | ⟨rfl, rfl⟩
  · exact .inl past
  · exact .inr past
  · obtain ⟨ses, found, known⟩ := context?_eq_some_iff.1 known
    exact .inl ⟨ses, found, own, known, .inr (.inr told)⟩

/-- An execution that has waited in vain closes its cursors. -/
theorem leftOpen_closed {call : Call}
    (left : (n.modifyContext call.session call.context Context.closeCursors).LeftOpen
      (With Q call) s c id) : n.LeftOpen Q s c id := by
  obtain ⟨past, reads⟩ := (tight_closed n call.session call.context).leftOpen left
  refine ⟨?_, reads⟩
  rcases past with past | past | ⟨rfl, rfl⟩
  · exact .inl past
  · exact .inr past
  · obtain ⟨ses', found', ctx, cursor, known, reading⟩ := left.reads
    rcases session?_modify_cases found' with ⟨_, ses, _, rfl⟩ | ⟨other, _⟩
    · have closing : Transactions.Closing Context.closeCursors := fun _ => rfl
      exact absurd rfl (Transactions.other_of_closing closing known reading).1
    · exact absurd rfl other

theorem over_of_erased {ses : Session} {k : String} {ctx : Context}
    (known : ses.transactions.context? c = some ctx)
    {t : Transactions} (erased : t.index = ses.transactions.index.erase k)
    (ended : ses.phase = .ended ∨ c ∉ t.registered ∨ ctx.slot.message ≠ none) :
    ses.Over c ∨ ses.transactions.index.get? k = some c := by
  rcases ended with ended | gone | told
  · exact .inl ⟨ctx, known, .inl ended⟩
  · by_cases registered : ses.transactions.index.get? k = some c
    · exact .inr registered
    · refine .inl ⟨ctx, known, .inr (.inl fun there => gone ?_)⟩
      obtain ⟨j, there⟩ := Transactions.mem_registered_iff.1 there
      refine Transactions.mem_registered (k := j) ?_
      rw [erased, KeyMap.get?_erase, if_neg, there]
      rintro rfl
      exact registered there
  · exact .inl ⟨ctx, known, .inr (.inr told)⟩

theorem reads_deleteContext {channel tx : String}
    (reads : (n.deleteContext t channel tx).Reads s c id) : n.Reads s c id := by
  obtain ⟨ses', found', ctx, cursor, known, reading⟩ := reads
  change (n.modify t _).session? s = some ses' at found'
  rcases session?_modify_cases found' with ⟨_, ses, found, rfl⟩ | ⟨_, found⟩
  · exact ⟨ses, found, ctx, cursor, known, reading⟩
  · exact ⟨ses', found, ctx, cursor, known, reading⟩

/-- A context is taken out of the index. It leaves cursors open if they are its own. -/
theorem leftOpen_deleteContext {channel tx : String}
    (left : (n.deleteContext t channel tx).LeftOpen Q s c id) : n.LeftOpen Q s c id ∨
      n.Reads s c id ∧ t = s ∧
        ∃ ses, n.session? s = some ses ∧ ses.transactions.find? channel tx = some c := by
  have reads := reads_deleteContext left.reads
  obtain ⟨past, ses', found', _⟩ := left
  change (n.modify t _).session? s = some ses' at found'
  rcases past with ⟨ses₁, found₁, ctx₁, known₁, ended⟩ | past
  · change (n.modify t _).session? s = some ses₁ at found₁
    cases Option.some.inj (found'.symm.trans found₁)
    rcases session?_modify_cases found' with ⟨rfl, ses, found, rfl⟩ | ⟨_, found⟩
    · change ses.transactions.context? c = some ctx₁ at known₁
      rcases over_of_erased known₁ rfl ended with past | registered
      · exact .inl ⟨.inl ⟨ses, found, past⟩, reads⟩
      · exact .inr ⟨reads, rfl, ses, found, registered⟩
    · exact .inl ⟨.inl ⟨ses', found, ctx₁, known₁, ended⟩, reads⟩
  · exact .inl ⟨.inr past, reads⟩

/-- An execution takes its context out of the index by its key, under which another one may be
found. -/
theorem leftOpen_left {call : Call} {own : Context}
    (left : (n.deleteContext call.session own.channel own.tx).LeftOpen Q s c id) :
    n.LeftOpen (With Q call) s c id ∨
      n.Reads s c id ∧ call.session = s ∧ call.context ≠ c ∧ ∃ ses, n.session? s = some ses ∧
        ses.transactions.find? own.channel own.tx = some c := by
  rcases leftOpen_deleteContext left with ⟨past, reads⟩ | ⟨reads, here, registered⟩
  · exact .inl ⟨past.imp_right .inl, reads⟩
  · by_cases same : call.context = c
    · exact .inl ⟨.inr (.inr ⟨here, same⟩), reads⟩
    · exact .inr ⟨reads, here, same, registered⟩

theorem not_registered_of_deleted (sound : n.Sound) {ses : Session} {channel tx : String}
    (found : n.session? s = some ses) (registered : ses.transactions.find? channel tx = some c) :
    ¬ (n.act (.deleteContext s channel tx)).Registers s c := by
  rintro ⟨ses', k, found', there⟩
  have found₁ : (n.act (.deleteContext s channel tx)).session? s = some _ := session?_modify found
  cases Option.some.inj (found₁.symm.trans found')
  change (ses.transactions.index.erase _).get? k = some c at there
  rw [KeyMap.get?_erase] at there
  split at there
  · cases there
  · rename_i other
    obtain ⟨ctx, known, key⟩ := (sound.transactions s ses found).indexed _ c registered
    obtain ⟨ctx', known', key'⟩ := (sound.transactions s ses found).indexed k c there
    cases Option.some.inj (known.symm.trans known')
    exact other (key.symm.trans key')

theorem find?_modifyContext {a : Nat} {f : Context → Context} {ses : Session} {channel tx : String}
    (found : (n.modifyContext t a f).session? s = some ses)
    (registered : ses.transactions.find? channel tx = some c) :
    ∃ ses', n.session? s = some ses' ∧ ses'.transactions.find? channel tx = some c := by
  rcases session?_modify_cases found with ⟨_, ses', found', rfl⟩ | ⟨_, found'⟩
  · exact ⟨ses', found', registered⟩
  · exact ⟨ses, found', registered⟩

/-- Whatever an execution that ends at once leaves open was open before, or its context is displaced
from the index. -/
theorem leftOpen_of_ends {call : Call}
    (ends : n.finish? call = some n' ∨ n' = n.expire call) (left : n'.LeftOpen Q s c id) :
    n.LeftOpen Q s c id ∨ ∃ own, n.context? call.session call.context = some own ∧
      n.Reads s c id ∧ call.session = s ∧ call.context ≠ c ∧ ∃ ses, n.session? s = some ses ∧
        ses.transactions.find? own.channel own.tx = some c := by
  rcases ends with finished | rfl
  · obtain ⟨own, m, known, told, _⟩ := finish?_cases finished
    cases (run_hears known told).symm.trans finished
    have delivers : Tight Nowhere ((n.unheld call).deleteContext call.session own.channel own.tx)
        (((n.unheld call).deleteContext call.session own.channel own.tx).deliver call.origin
          (.ok m)) := frame_tight.deliver fun _ _ => .outside rfl
    rcases leftOpen_left (delivers.leftOpen left) with left | ⟨reads, here, other, ses, found, there⟩
    · exact .inl (leftOpen_unheld known (told ▸ nofun) left)
    · obtain ⟨ses', found', there'⟩ := find?_modifyContext found there
      exact .inr ⟨own, known, (tight_unheld n call).reads' reads, here, other, ses', found', there'⟩
  · cases known : n.context? call.session call.context with
    | none =>
      have forgets : Tight Nowhere n (n.forget call) := .outside rfl
      simp only [expire, known] at left
      exact .inl (forgets.leftOpen left)
    | some own =>
      rw [run_lapses known] at left
      have delivers (n : Node) : Tight Nowhere n
          (n.deliver call.origin (.error (.timeout own.tx))) := frame_tight.deliver_error ..
      have waited := tight_unheld n call
      rcases leftOpen_left ((delivers _).leftOpen left) with left |
        ⟨reads, here, other, ses, found, there⟩
      · exact .inl (waited.leftOpen (leftOpen_closed left))
      · obtain ⟨ses₁, found₁, there₁⟩ := find?_modifyContext found there
        obtain ⟨ses₂, found₂, there₂⟩ := find?_modifyContext found₁ there₁
        have closes := tight_closed (n.unheld call) call.session call.context
        exact .inr ⟨own, rfl, waited.reads' (closes.reads' reads), here, other, ses₂, found₂, there₂⟩

end Node

namespace Floor

open Node

variable {P : Act → Prop} {x x' : Floor} {s : SessionId} {c : Nat} {id : String}

/-- An execution is to take its context out of the index. -/
def Quitting (x : Floor) (s : SessionId) (c : Nat) : Prop :=
  ∃ i call own result, x.hands i = some (.leaves call own result) ∧ call.session = s ∧
    call.context = c

def Over (x : Floor) (s : SessionId) (c : Nat) : Prop := x.node.Over s c ∨ x.Quitting s c

/-- A transaction is over, and a cursor of it is open still. -/
abbrev LeftOpen (x : Floor) (s : SessionId) (c : Nat) (id : String) : Prop :=
  x.node.LeftOpen x.Quitting s c id

/-- An execution takes a context out of the index, at once or by its next statement. -/
inductive Quits (call : Call) (own : Context) : Floor → Floor → Prop
  | atOnce {x : Floor} {n' : Node} (waits : call ∈ x.node.calls)
      (known : x.node.context? call.session call.context = some own)
      (ends : x.node.finish? call = some n' ∨ n' = x.node.expire call) :
      Quits call own x ⟨n', x.hands⟩
  | next {x : Floor} {i : Nat} {result : Except SessionError Message}
      (busy : x.hands i = some (.leaves call own result)) :
      Quits call own x (x.advance i (.leaves call own result))

theorem Quits.begins {call : Call} {own : Context} (quits : Quits call own x x') :
    (∃ call, call ∈ x.node.calls) ∨ ∃ i h, x.hands i = some h := by
  cases quits with
  | atOnce waits => exact .inl ⟨call, waits⟩
  | next busy => exact .inr ⟨_, _, busy⟩

/-- A request is carried out in a context, at once or by the next statement of a hand. -/
inductive Carries (s : SessionId) (c : Nat) : Floor → Floor → Prop
  | atOnce {x : Floor} {n' : Node} {job : Job} {r : Request} (takes : Takes s c job r x.node n') :
      Carries s c x ⟨n', x.hands⟩
  | next {x : Floor} {i : Nat} {job : Job} {r : Request}
      (busy : x.hands i = some (.holds s job r c)) :
      Carries s c x (x.advance i (.holds s job r c))

/-- The ways in which a cursor of a context is left open. The context is deleted. Or an execution
takes it out of the index, though the execution waited on another context. Or a request is carried
out in it although the transaction is over. -/
inductive Strands (s : SessionId) (c : Nat) (id : String) (x x' : Floor) : Prop
  | deleted {ses : Session} {channel tx : String} (reads : x.node.Reads s c id)
      (found : x.node.session? s = some ses)
      (registered : ses.transactions.find? channel tx = some c)
      (deletes : x' = ⟨x.node.act (.deleteContext s channel tx), x.hands⟩) : Strands s c id x x'
  | displaced {ses : Session} {call : Call} {own : Context} (reads : x.node.Reads s c id)
      (found : x.node.session? s = some ses) (quits : Quits call own x x') (here : call.session = s)
      (other : call.context ≠ c)
      (registered : ses.transactions.find? own.channel own.tx = some c) : Strands s c id x x'
  | carried (carries : Carries s c x x') (past : x.Over s c) (reads : x'.node.Reads s c id) :
      Strands s c id x x'

/-! ## What happens one by one -/

/-- Other hands do not take a context out of the index. -/
theorem quitting_set {i : Nat} {n : Node} {h : Option Hand} (other : h.any Hand.quits = false)
    (quitting : (x.set i n h).Quitting s c) : x.Quitting s c := by
  obtain ⟨j, call, own, result, busy, about⟩ := quitting
  by_cases same : j = i
  · subst same
    change Function.update x.hands j h j = _ at busy
    rw [Function.update_self] at busy
    rw [busy] at other
    cases other
  · change Function.update x.hands i h j = _ at busy
    rw [Function.update_of_ne same] at busy
    exact ⟨j, call, own, result, busy, about⟩

theorem quitting_leaves {i : Nat} {n : Node} {call : Call} {own : Context}
    {result : Except SessionError Message}
    (quitting : (x.set i n (some (.leaves call own result))).Quitting s c) :
    With x.Quitting call s c := by
  obtain ⟨j, call', own', result', busy, about⟩ := quitting
  by_cases same : j = i
  · subst same
    change Function.update x.hands j _ j = _ at busy
    rw [Function.update_self] at busy
    cases busy
    exact .inr about
  · change Function.update x.hands i _ j = _ at busy
    rw [Function.update_of_ne same] at busy
    exact .inl ⟨j, call', own', result', busy, about⟩

theorem strands_of_move {n' : Node} (move : Move P x.node n')
    (left : (⟨n', x.hands⟩ : Floor).LeftOpen s c id) :
    x.LeftOpen s c id ∨ Strands s c id x ⟨n', x.hands⟩ := by
  change n'.LeftOpen x.Quitting s c id at left
  rcases telling_tight.move move with tight | ⟨t, m, _, rfl⟩ | ⟨t, took⟩ | ⟨t, channel, tx, rfl⟩ |
    ⟨call, waits, ends⟩
  · exact .inl (tight.leftOpen left)
  · exact .inl ((tight_notify x.node t m).leftOpen left)
  · refine ((tight_work? took).leftOpen_or And.left left).imp_right ?_
    rintro ⟨⟨_, job, r, takes⟩, past⟩
    exact .carried (.atOnce takes) past left.reads
  · rcases leftOpen_deleteContext left with left | ⟨reads, rfl, ses, found, registered⟩
    · exact .inl left
    · exact .inr (.deleted reads found registered rfl)
  · rcases leftOpen_of_ends ends left with left | ⟨own, known, reads, here, other, ses, found, there⟩
    · exact .inl left
    · exact .inr (.displaced reads found (.atOnce waits known ends) here other there)

/-- What the next statement of a hand leaves open was open before, or the hand has stranded it. -/
theorem strands_of_next {i : Nat} {h : Hand} (busy : x.hands i = some h)
    (left : (x.advance i h).LeftOpen s c id) :
    x.LeftOpen s c id ∨ Strands s c id x (x.advance i h) := by
  have aside (waits : ∀ call own, h ≠ .lapses call own)
      (tight : Tight Nowhere x.node (h.next x.node).1) : x.LeftOpen s c id :=
    tight.leftOpen ⟨left.past.imp_right (quitting_set (Hand.quits_next waits)), left.reads⟩
  cases h with
  | claims | looks | owes =>
    refine .inl (aside (fun _ _ => Hand.noConfusion) (frame_tight.next _ ?_ ?_ ?_ ?_))
    all_goals
      intros
      contradiction
  | returns origin result =>
    refine .inl (aside (fun _ _ => Hand.noConfusion)
      (frame_tight.next _ ?_ ?_ ?_ fun _ _ _ => .outside rfl))
    all_goals
      intros
      contradiction
  | holds t job r a =>
    have tight : Tight (fun s c => (∃ ctx, x.node.context? s c = some ctx) ∧ t = s ∧ a = c)
        x.node (Hand.next x.node (.holds t job r a)).1 := by
      refine frame_tight.next _ (fun s job r c ctx n' same known turning => ?_) ?_ ?_ ?_
      · cases same
        exact tight_turning known turning ⟨⟨ctx, known⟩, rfl, rfl⟩
      all_goals
        intros
        contradiction
    have past := left.past.imp_right
      (quitting_set (Hand.quits_next fun _ _ => Hand.noConfusion))
    refine (tight.leftOpen_or And.left ⟨past, left.reads⟩).imp_right ?_
    rintro ⟨⟨_, rfl, rfl⟩, past⟩
    exact .carried (.next busy) past left.reads
  | lapses call own =>
    exact .inl (leftOpen_closed ⟨left.past.imp_right quitting_leaves, left.reads⟩)
  | leaves call own result =>
    have past := left.past.imp_right (quitting_set (Hand.quits_next fun _ _ => Hand.noConfusion))
    rcases leftOpen_left (Q := x.Quitting) ⟨past, left.reads⟩ with ⟨past, reads⟩ |
      ⟨reads, here, other, ses, found, there⟩
    · refine .inl ⟨past.imp_right ?_, reads⟩
      rintro (quitting | about)
      · exact quitting
      · exact ⟨i, call, own, result, busy, about⟩
    · exact .inr (.displaced reads found (.next busy) here other there)

/-- Whatever happens, a cursor that is left open was before, or it is stranded by that. -/
theorem strands_of_stage (stage : Stage P x x') (left : x'.LeftOpen s c id) :
    x.LeftOpen s c id ∨ Strands s c id x x' := by
  cases stage with
  | move move => exact strands_of_move move left
  | @takes i t ses job pool idle found taken =>
    have tight : Tight Nowhere x.node (x.node.modify t fun ses => { ses with pool }) :=
      frame_tight.apart x.node t fun _ => .of_eq rfl rfl
    have past := left.past.imp_right (quitting_set rfl)
    exact .inl (tight.leftOpen ⟨past, left.reads⟩)
  | @picks i t ses m idle found spawned =>
    have tight : Tight Nowhere x.node (x.node.modify t (·.pickUp m)) :=
      frame_tight.apart x.node t fun _ => .of_eq rfl rfl
    have past := left.past.imp_right (quitting_set rfl)
    exact .inl (tight.leftOpen ⟨past, left.reads⟩)
  | hears idle waits known told =>
    have past := left.past.imp_right quitting_leaves
    exact .inl (leftOpen_unheld known (told ▸ nofun) ⟨past, left.reads⟩)
  | @lapses i call own idle waits known =>
    have past := left.past.imp_right (quitting_set rfl)
    exact .inl ((tight_unheld x.node call).leftOpen ⟨past, left.reads⟩)
  | next busy => exact strands_of_next busy left

end Floor

/-! ## Runs -/

namespace Floor

open Node

variable {P : Act → Prop} {x x' x₀ : Floor} {s : SessionId} {c : Nat} {id : String}

/-- Any number of things that happen, none of which strands a cursor. -/
abbrev Unstranded (P : Act → Prop) (s : SessionId) (c : Nat) (id : String) : Floor → Floor → Prop :=
  Relation.ReflTransGen fun x x' => Stage P x x' ∧ ¬ Strands s c id x x'

/-- Every cursor that was opened is closed once when its transaction is over, as long as nothing
strands it. -/
theorem closed_of_stages {channels historyless system : List String} {drill : Drill}
    (reached : Stages P (still (withChannels channels historyless system drill)) x₀)
    (before : ¬ x₀.LeftOpen s c id)
    (run : Unstranded P s c id x₀ x)
    (known : x.node.Knows s c id) (past : x.Over s c) : x.node.ClosedOnce s c id := by
  have closed : ¬ x.LeftOpen s c id := by
    clear known past
    induction run with
    | refl => exact before
    | tail _ stage ih =>
      intro left
      rcases strands_of_stage stage.1 left with left' | strands
      · exact ih left'
      · exact stage.2 strands
  have stages : Stages P x₀ x := Relation.ReflTransGen.mono (fun _ _ stage => stage.1) _ _ run
  have clean : x.node.Clean := clean_of_stages (reached.trans stages) fun s ses found =>
    ((sound_withChannels channels historyless system drill).transactions s ses found).clean
  exact clean.closedOnce known fun reads => closed ⟨past, reads⟩

/-- Where no hand is in the middle of anything and no execution waits, a move strands no cursor of a
context whose transaction is not over before it, if the context is registered still after it. -/
theorem not_strands_of_registers {n n' : Node} (sound : n.Sound) (idle : n.calls = [])
    (live : ¬ n.Over s c) (registers : n'.Registers s c) :
    ¬ Strands s c id (still n) (still n') := by
  intro strands
  cases strands with
  | deleted _ found registered deletes =>
    have same : n' = n.act (.deleteContext s _ _) := congrArg Floor.node deletes
    exact not_registered_of_deleted sound found registered (same ▸ registers)
  | displaced _ _ quits =>
    obtain ⟨call, waits⟩ | ⟨i, h, busy⟩ := quits.begins
    · change call ∈ n.calls at waits
      rw [idle] at waits
      cases waits
    · cases busy
  | carried _ past =>
    rcases past with past | ⟨i, call, own, result, busy, _⟩
    · exact live past
    · cases busy

/-- The contract completes a handshake while it has a page to read, and the context is deleted after
that. -/
theorem closed_of_stages_pagingRun :
    let n₀ := ((withChannels ["ch"] [] [] {}).steps pagingRun).steps
      [.contractSends 0 (scanning "ch" "t1")]
    let n₁ := n₀.act (.contractSends 0 { kind := .completed, channel := "ch", tx := "t1" })
    n₀.Reads 0 0 (cursorId 0) ∧ ∃ n₂, n₁.receive? 0 = some n₂ ∧
      (n₂.act (.deleteContext 0 "ch" "t1")).Over 0 0 ∧
        (n₂.act (.deleteContext 0 "ch" "t1")).ClosedOnce 0 0 (cursorId 0) := by
  intro n₀ n₁
  have facts : (decide (n₀.Reads 0 0 (cursorId 0)) && !n₀.Over 0 0 && n₀.calls.isEmpty &&
      !n₁.Over 0 0 && n₁.calls.isEmpty &&
      (n₁.session? 0).any (fun ses => ses.transactions.index.get? "cht1" == some 0) &&
      (n₁.receive? 0).any fun n₂ => !n₂.Reads 0 0 (cursorId 0) &&
        (n₂.session? 0).any (fun ses => ses.transactions.index.get? "cht1" == some 0) &&
        (n₂.work? 0).isNone && (n₂.act (.deleteContext 0 "ch" "t1")).Over 0 0) = true := by
    decide +kernel
  have base : Moves (fun _ => True) (withChannels ["ch"] [] [] {})
      ((withChannels ["ch"] [] [] {}).steps pagingRun) := moves_steps fun _ _ => trivial
  have reached : Moves (fun _ => True) (withChannels ["ch"] [] [] {}) n₀ :=
    base.trans (moves_steps fun _ _ => trivial)
  have sends : Move (fun _ => True) n₀ n₁ := .act _ trivial fun _ => nofun
  clear_value n₁
  clear_value n₀
  simp only [Option.any_eq_true, Bool.and_eq_true, Bool.not_eq_true', decide_eq_true_eq,
    decide_eq_false_iff_not, beq_iff_eq, List.isEmpty_iff, Option.isNone_iff_eq_none] at facts
  obtain ⟨⟨⟨⟨⟨⟨reads, live⟩, idle⟩, live₁⟩, idle₁⟩, ses₁, found₁, registered₁⟩, n₂, received,
    ⟨⟨closed, ses₂, found₂, registered₂⟩, asleep⟩, past⟩ := facts
  have receives : Move (fun _ => True) n₁ n₂ := .receive received
  have deletes : Move (fun _ => True) n₂ (n₂.act (.deleteContext 0 "ch" "t1")) :=
    .act _ trivial fun _ => nofun
  have sound : n₀.Sound := sound_moves (sound_withChannels ["ch"] [] [] {}) reached
  have sent : ¬ Strands 0 0 (cursorId 0) (still n₀) (still n₁) :=
    not_strands_of_registers sound idle live ⟨ses₁, _, found₁, registered₁⟩
  have told : ¬ Strands 0 0 (cursorId 0) (still n₁) (still n₂) :=
    not_strands_of_registers (sound_move sound sends) idle₁ live₁ ⟨ses₂, _, found₂, registered₂⟩
  have deleted : ¬ Strands 0 0 (cursorId 0) (still n₂)
      (still (n₂.act (.deleteContext 0 "ch" "t1"))) := by
    intro strands
    cases strands with
    | deleted reads => exact closed reads
    | displaced reads => exact closed reads
    | carried _ _ reads => exact closed (reads_deleteContext reads)
  have run : Unstranded (fun _ => True) 0 0 (cursorId 0) (still n₀)
      (still (n₂.act (.deleteContext 0 "ch" "t1"))) :=
    ((Relation.ReflTransGen.single ⟨.move sends, sent⟩).tail ⟨.move receives, told⟩).tail
      ⟨.move deletes, deleted⟩
  have known := knows_of_stages (stages_of_moves
    (((Relation.ReflTransGen.single sends).tail receives).tail deletes)) reads.knows
  have before : ¬ (still n₀).LeftOpen 0 0 (cursorId 0) := by
    rintro ⟨past | ⟨i, call, own, result, busy, _⟩, _⟩
    · exact live past
    · cases busy
  exact ⟨reads, n₂, received, past,
    closed_of_stages (stages_of_moves reached) before run known (.inl past)⟩

/-- The context of a handshake is deleted while the contract has a page to read, whose cursor is
never closed then. -/
theorem leftOpen_of_deleted :
    let n := ((withChannels ["ch"] [] [] {}).steps pagingRun).steps
      [.contractSends 0 (scanning "ch" "t1"), .deleteContext 0 "ch" "t1"]
    n.turn? = none ∧ (∃ ses, n.session? 0 = some ses ∧ ses.transactions.registered = []) ∧
      ∃ ctx cursor, n.context? 0 0 = some ctx ∧
        ctx.cursors.cursors.get? (cursorId 0) = some cursor ∧ cursor.closes = 0 := by
  intro n
  have there : (n.turn?.isNone && (n.session? 0).any fun ses =>
      ses.transactions.registered == [] && (ses.transactions.context? 0).any fun ctx =>
        (ctx.cursors.cursors.get? (cursorId 0)).any fun cursor => cursor.closes == 0) = true := by
    decide +kernel
  simp only [Option.any_eq_true, Bool.and_eq_true, beq_iff_eq, Option.isNone_iff_eq_none] at there
  obtain ⟨rest, ses, found, none, ctx, known, cursor, reading, unclosed⟩ := there
  exact ⟨rest, ⟨ses, found, none⟩, ctx, cursor, context?_eq_some_iff.2 ⟨ses, found, known⟩, reading,
    unclosed⟩

/-- A worker has looked a context up when the transaction ends, and opens a cursor after that. -/
example :
    let looked := Hand.run 2 ((withChannels ["ch"] [] [] {}).steps pagingRun)
      (some (.claims 0 ⟨.range, scanning "ch" "t1"⟩))
    let ended := looked.1.act (.notify 0 { kind := .completed, channel := "ch", tx := "t1" })
    let carried := Hand.run 1 ended looked.2
    ¬ looked.1.Over 0 0 ∧ carried.1.Over 0 0 ∧ carried.1.Reads 0 0 (cursorId 0) := by
  decide +kernel

end Floor

end ContractNode
