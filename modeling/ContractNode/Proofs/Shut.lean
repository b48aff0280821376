import ContractNode.Proofs.Tight

/-!
# Cursors that are closed

Whatever happens, no cursor is forgotten, and those that are not open any more were closed once.

* `remembers_stage`, `knows_of_stages` : a cursor that was opened stays known;
* `Node.Clean`, `clean_of_stages` : no cursor is closed twice;
* `Clean.closedOnce` : a known cursor that is not open was closed once.
-/

namespace ContractNode

namespace Node

/-! ## Cursors are not forgotten -/

variable {n n' : Node} {s t : SessionId} {c : Nat} {id : String}

theorem tight_unheld (n : Node) (call : Call) : Tight Nowhere n (n.unheld call) := by
  have dropped : Tight Nowhere n (n.modifyContext call.session call.context
      fun c => { c with slot := c.slot.drop }) :=
    .modify n call.session fun ses _ => ses.tight_slot _ (fun _ => rfl) fun _ => rfl
  exact dropped.trans (.outside rfl)

theorem tight_closed (n : Node) (t : SessionId) (a : Nat) :
    Tight Nowhere n (n.modifyContext t a Context.closeCursors) :=
  .modify n t fun _ _ =>
    .of_hushes (Transactions.hushes_modify (fun _ => rfl) _ a) fun ended => .inl ended

theorem remembers_deleteContext (n : Node) (t : SessionId) (channel tx : String) :
    Remembers n (n.deleteContext t channel tx) :=
  .modify n t fun _ _ _ ctx known => ⟨ctx, known, .refl _⟩

theorem remembers_next (n : Node) (h : Hand) : Remembers n (h.next n).1 := by
  cases h with
  | lapses call own => exact (tight_closed n call.session call.context).keeps
  | leaves call own result => exact remembers_deleteContext _ _ _ _
  | claims | looks | holds | owes | returns =>
    refine Tight.keeps (E := fun _ _ => True)
      (frame_tight.next _ (fun s job r c ctx n' _ known turning => ?_) ?_ ?_
        fun _ _ _ => .outside rfl)
    · exact tight_turning known turning trivial
    all_goals
      intros
      contradiction

theorem remembers_of_ends {call : Call} (ends : n.finish? call = some n' ∨ n' = n.expire call) :
    Remembers n n' := by
  have forgets : Tight Nowhere n (n.forget call) := .outside rfl
  exact of_ends .trans forgets.keeps (tight_unheld n call).keeps remembers_next ends

theorem remembers_move {P : Act → Prop} (move : Move P n n') : Remembers n n' := by
  rcases telling_tight.move move with tight | ⟨t, m, _, rfl⟩ | ⟨t, took⟩ | ⟨t, channel, tx, rfl⟩ |
    ⟨call, _, ends⟩
  · exact tight.keeps
  · exact (tight_notify n t m).keeps
  · exact (tight_work? took).keeps
  · exact remembers_deleteContext _ _ _ _
  · exact remembers_of_ends ends

/-! ## Cursors are closed once -/

/-- No open cursor was closed yet, and every other one was closed once. -/
def Clean (n : Node) : Prop := ∀ s ses, n.session? s = some ses → ses.transactions.Clean

theorem Clean.modify (h : n.Clean) {f : Session → Session}
    (kept : ∀ ses, n.session? t = some ses → ses.transactions.Clean → (f ses).transactions.Clean) :
    (n.modify t f).Clean := by
  intro s ses' found'
  rcases session?_modify_cases found' with ⟨rfl, ses, found, rfl⟩ | ⟨_, found⟩
  · exact kept ses found (h _ ses found)
  · exact h s ses' found

theorem Clean.modifyContext (h : n.Clean) (t : SessionId) (a : Nat) {f : Context → Context}
    (kept : ∀ ctx, n.context? t a = some ctx → ctx.cursors.Once → (f ctx).cursors.Once) :
    (n.modifyContext t a f).Clean := by
  refine h.modify fun ses found clean c ctx known => ?_
  rw [Transactions.context?_modify] at known
  split at known
  · rename_i same
    subst same
    obtain ⟨ctx', known', rfl⟩ := Option.map_eq_some_iff.1 known
    exact kept ctx' (context?_eq_some_iff.2 ⟨ses, found, known'⟩) (clean a ctx' known')
  · exact clean c ctx known

theorem frame_clean : Frame fun n n' => n.Clean → n'.Clean where
  refl _ := id
  trans h h' clean := h' (h clean)
  outside sessions _ _ _ clean := fun s ses found => clean s ses (by
    unfold session? at found ⊢
    rwa [← sessions])
  aside h clean := clean.modify fun ses found clean c ctx known =>
    clean c ctx (by rwa [Transactions.context?, ← (h ses found).contexts])
  append {n ses} blank clean := fun s ses' found => by
    change (n.sessions ++ [ses])[s]? = some ses' at found
    rw [List.getElem?_append] at found
    split at found
    · exact clean s ses' found
    · rw [List.getElem?_singleton] at found
      split at found
      · cases found
        rw [blank]
        exact Transactions.Sound.empty.clean
      · cases found
  bury unheard clean := clean.modify fun ses _ clean c ctx known => by
    rcases Transactions.context?_bury _ known with known | ⟨_, rfl⟩
    · exact clean c ctx known
    · rw [unheard.cursors]
      exact CursorTable.once_empty
  enroll found fresh unheard clean := clean.modify fun ses _ clean c ctx known => by
    rcases Transactions.context?_enroll _ known with known | ⟨_, rfl⟩
    · exact clean c ctx known
    · show CursorTable.Once (Context.cursors _)
      rw [unheard.cursors]
      exact CursorTable.once_empty

theorem telling_clean : Telling fun n n' => n.Clean → n'.Clean where
  toFrame := frame_clean
  notify _ _ clean := clean.modify fun ses _ => (ses.follows_notify _).clean
  farewell n t clean := by
    obtain ⟨directory, left⟩ := (n.farewelled t).deregister_eq t
    have told : (((n.farewelled t).modify t fun ses =>
        { ses with isRegistered := false }).modify t fun ses =>
          { ses with phase := .ended }.stop).Clean := by
      unfold farewelled
      rw [modify_modify, modify_modify]
      exact clean.modify fun ses _ =>
        ((ses.follows_notify _).trans (Session.follows_notifyAll _)).clean
    unfold closed
    rw [left]
    exact told
  polled n t c clean := clean.modifyContext t c fun _ _ once => once

theorem clean_turning {ctx : Context} {r : Request} (known : n.context? t c = some ctx)
    (turning : Turning n t c ctx r n') (clean : n.Clean) : n'.Clean := by
  have once : ctx.cursors.Once := by
    obtain ⟨ses, found, there⟩ := context?_eq_some_iff.1 known
    exact clean t ses found c ctx there
  have kept {u : CursorTable Scan} (once : u.Once) : (n.modifyCursors t c u).Clean :=
    clean.modifyContext t c fun _ _ _ => once
  cases turning with
  | opens max scan =>
    have opened := kept (CursorTable.once_openCursor once max (cursorId n.cursorCount) scan)
    exact opened
  | advances max q => exact kept (CursorTable.once_advance once max q.id)
  | closes q => exact kept (CursorTable.once_close once q.id)

theorem clean_deleteContext (clean : n.Clean) (t : SessionId) (channel tx : String) :
    (n.deleteContext t channel tx).Clean := clean.modify fun _ _ clean => clean

theorem clean_unheld (clean : n.Clean) (call : Call) : (n.unheld call).Clean := by
  have dropped : (n.modifyContext call.session call.context
      fun c => { c with slot := c.slot.drop }).Clean :=
    clean.modifyContext _ _ fun _ _ once => once
  exact dropped

theorem clean_closed (clean : n.Clean) (t : SessionId) (a : Nat) :
    (n.modifyContext t a Context.closeCursors).Clean :=
  clean.modifyContext t a fun _ _ => CursorTable.once_closeAll

theorem clean_next (clean : n.Clean) (h : Hand) : (h.next n).1.Clean := by
  refine frame_clean.next h (fun s job r c ctx n' _ known turning => clean_turning known turning)
    (fun call own _ clean => ?_) (fun call own result _ clean => ?_) (fun _ _ _ clean => clean) clean
  · exact clean_closed clean _ _
  · exact clean_deleteContext clean _ _ _

theorem clean_of_ends {call : Call} (clean : n.Clean)
    (ends : n.finish? call = some n' ∨ n' = n.expire call) : n'.Clean :=
  of_ends (R := fun n n' => n.Clean → n'.Clean) (fun h h' clean => h' (h clean)) (fun clean => clean)
    (fun clean => clean_unheld clean call) (fun _ h clean => clean_next clean h) ends clean

theorem clean_move {P : Act → Prop} (move : Move P n n') (clean : n.Clean) : n'.Clean := by
  rcases telling_clean.move move with kept | ⟨t, m, _, rfl⟩ | ⟨t, took⟩ | ⟨t, channel, tx, rfl⟩ |
    ⟨call, _, ends⟩
  · exact kept clean
  · exact clean.modify fun ses _ => (ses.follows_notify m).clean
  · exact frame_clean.work? took (fun _ _ _ _ _ _ _ _ known turning => clean_turning known turning)
      clean
  · exact clean_deleteContext clean t channel tx
  · exact clean_of_ends clean ends

def Knows (n : Node) (s : SessionId) (c : Nat) (id : String) : Prop :=
  ∃ ctx, n.context? s c = some ctx ∧ ctx.cursors.Knows id

def ClosedOnce (n : Node) (s : SessionId) (c : Nat) (id : String) : Prop :=
  ∃ ctx, n.context? s c = some ctx ∧ ctx.cursors.cursors.get? id = none ∧
    (∃ cursor, (id, cursor) ∈ ctx.cursors.retired) ∧
      ∀ cursor, (id, cursor) ∈ ctx.cursors.retired → cursor.closes = 1

theorem Remembers.knows (remembers : Remembers n n') (known : n.Knows s c id) :
    n'.Knows s c id := by
  obtain ⟨ctx, known, there⟩ := known
  obtain ⟨ctx', known', grows⟩ := remembers s c ctx known
  exact ⟨ctx', known', grows id there⟩

theorem Reads.knows (reads : n.Reads s c id) : n.Knows s c id := by
  obtain ⟨ses, found, ctx, cursor, there, reading⟩ := reads
  exact ⟨ctx, context?_eq_some_iff.2 ⟨ses, found, there⟩, .inl ⟨cursor, reading⟩⟩

theorem Clean.closedOnce (clean : n.Clean) (known : n.Knows s c id) (closed : ¬ n.Reads s c id) :
    n.ClosedOnce s c id := by
  obtain ⟨ctx, known, there⟩ := known
  obtain ⟨ses, found, has⟩ := context?_eq_some_iff.1 known
  have none : ctx.cursors.cursors.get? id = none := by
    refine Option.eq_none_iff_forall_not_mem.2 fun cursor reading => ?_
    exact closed ⟨ses, found, ctx, cursor, has, reading⟩
  have once := clean s ses found c ctx has
  refine ⟨ctx, known, none, there.resolve_left ?_, fun cursor mem => once.retired _ mem⟩
  rintro ⟨cursor, reading⟩
  rw [none] at reading
  cases reading

end Node

/-! ## Runs -/

namespace Floor

open Node

variable {P : Act → Prop} {x x' x₀ : Floor} {s : SessionId} {c : Nat} {id : String}

theorem remembers_stage (stage : Stage P x x') : Remembers x.node x'.node := by
  refine stage.relates remembers_move (fun n t f aside => ?_)
    (fun n call => (tight_unheld n call).keeps) remembers_next
  have tight : Tight Nowhere n (n.modify t f) := frame_tight.apart n t aside
  exact tight.keeps

theorem clean_stage (stage : Stage P x x') (clean : x.node.Clean) : x'.node.Clean :=
  stage.relates (R := fun n n' => n.Clean → n'.Clean) clean_move
    (fun n t _ aside => frame_clean.apart n t aside) (fun _ call clean => clean_unheld clean call)
    (fun _ h clean => clean_next clean h) clean

theorem knows_of_stages (run : Stages P x₀ x) (known : x₀.node.Knows s c id) :
    x.node.Knows s c id := by
  induction run with
  | refl => exact known
  | tail _ stage ih => exact (remembers_stage stage).knows ih

theorem clean_of_stages (run : Stages P x₀ x) (clean : x₀.node.Clean) : x.node.Clean := by
  induction run with
  | refl => exact clean
  | tail _ stage ih => exact clean_stage stage ih

end Floor

end ContractNode
