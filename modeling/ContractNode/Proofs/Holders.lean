import ContractNode.Proofs.Ending

/-!
# Who holds the registered contexts

* `Node.Kept` : the registered contexts are exactly those at the given places, one each;
* `kept_touch`, `Kept.enroll`, `Kept.release` : it stays so when contexts go on, come and go;
* `Node.places`, `kept_effect` : the places of the executions that wait, and of others;
* `Node.Informed`, `informed_deed` : whoever waits on a session that has ended has been told.
-/

namespace ContractNode

/-- A context, by the number of its session and its own. -/
abbrev Place := SessionId × Nat

namespace Node

/-- The registered contexts are exactly those at some places, one each. Their slots are held. -/
structure Kept (ps : List Place) (n : Node) : Prop where
  stands : ∀ s c, (s, c) ∈ ps → ∃ ses ctx, n.session? s = some ses ∧
    ses.transactions.context? c = some ctx ∧ ctx.slot.receiver = .held ∧
      ses.transactions.index.get? ctx.key = some c
  owned : ∀ s ses k c, n.session? s = some ses → ses.transactions.index.get? k = some c →
    (s, c) ∈ ps
  distinct : ps.Nodup

section Kept

variable {n n' : Node} {ps ps' : List Place}

theorem Kept.perm (h : n.Kept ps) (same : ps.Perm ps') : n.Kept ps' where
  stands s c mem := h.stands s c (same.mem_iff.2 mem)
  owned s ses k c found registered := same.mem_iff.1 (h.owned s ses k c found registered)
  distinct := same.nodup_iff.1 h.distinct

theorem Kept.congr (h : n.Kept ps) (same : n'.sessions = n.sessions) : n'.Kept ps where
  stands s c mem := by
    obtain ⟨ses, ctx, found, rest⟩ := h.stands s c mem
    exact ⟨ses, ctx, by unfold session?; rw [same]; exact found, rest⟩
  owned s ses k c found registered :=
    h.owned s ses k c (by unfold session? at found ⊢; rwa [same] at found) registered
  distinct := h.distinct

theorem kept_touch (h : n.Kept ps) (touches : Touches n n') : n'.Kept ps where
  stands s c mem := by
    obtain ⟨ses, ctx, found, known, held, registered⟩ := h.stands s c mem
    obtain ⟨ses', found', follows⟩ := touches.sessions s ses found
    obtain ⟨ctx', known', goes⟩ := follows.contexts c ctx known
    refine ⟨ses', ctx', found', known', goes.receiver.trans held, ?_⟩
    rw [follows.index, Context.key_of_badge goes.badge]
    exact registered
  owned s ses' k c found' registered := by
    have follows := touches.session found'
    cases found : n.session? s with
    | none =>
      rw [found] at follows
      rw [follows.index] at registered
      cases registered
    | some ses =>
      rw [found] at follows
      exact h.owned s ses k c found (follows.index ▸ registered)
  distinct := h.distinct

theorem Kept.stands_found (h : n.Kept ps) {s : SessionId} {ses : Session} {c : Nat}
    (found : n.session? s = some ses) (mem : (s, c) ∈ ps) :
    ∃ ctx, ses.transactions.context? c = some ctx ∧ ctx.slot.receiver = .held ∧
      ses.transactions.index.get? ctx.key = some c := by
  obtain ⟨ses', ctx, found', stands⟩ := h.stands s c mem
  cases Option.some.inj (found.symm.trans found')
  exact ⟨ctx, stands⟩

/-- The number of the next context belongs to nobody yet. -/
theorem Kept.fresh (h : n.Kept ps) {s : SessionId} {ses : Session}
    (found : n.session? s = some ses) : (s, ses.transactions.contexts.length) ∉ ps := by
  intro mem
  obtain ⟨ctx, known, _⟩ := h.stands_found found mem
  exact Nat.lt_irrefl _ (List.getElem?_eq_some_iff.1 known).1

theorem context?_modifyContext (n : Node) (s t : SessionId) (c no : Nat) (f : Context → Context) :
    (n.modifyContext s c f).context? t no =
      if s = t ∧ c = no then (n.context? t no).map f else n.context? t no := by
  unfold modifyContext context?
  rw [session?_modify_if]
  by_cases same : s = t
  · subst same
    cases n.session? s with
    | none => simp
    | some ses =>
      rw [if_pos rfl]
      show (ses.transactions.modify c f).context? no = _
      rw [Transactions.context?_modify]
      simp
  · simp [same]

theorem Kept.modify (h : n.Kept ps) {s : SessionId} {ses : Session} {f : Session → Session}
    (found : n.session? s = some ses) (distinct : ps'.Nodup)
    (others : ∀ t c, s ≠ t → ((t, c) ∈ ps' ↔ (t, c) ∈ ps))
    (stands : ∀ c, (s, c) ∈ ps' → ∃ ctx, (f ses).transactions.context? c = some ctx ∧
      ctx.slot.receiver = .held ∧ (f ses).transactions.index.get? ctx.key = some c)
    (owned : ∀ k c, (f ses).transactions.index.get? k = some c → (s, c) ∈ ps') :
    (n.modify s f).Kept ps' where
  stands t c mem := by
    by_cases same : s = t
    · subst same
      obtain ⟨ctx, known, held, registered⟩ := stands c mem
      exact ⟨f ses, ctx, session?_modify found, known, held, registered⟩
    · rw [session?_modify_if, if_neg same]
      exact h.stands t c ((others t c same).1 mem)
  owned t ses' k c found' registered := by
    rcases session?_modify_cases found' with ⟨rfl, ses₁, there, rfl⟩ | ⟨other, found'⟩
    · cases Option.some.inj (found.symm.trans there)
      exact owned k c registered
    · exact (others t c other).2 (h.owned t ses' k c found' registered)
  distinct := distinct

/-- A context may change while it keeps its badge and its slot. -/
theorem Kept.modifyContext (h : n.Kept ps) (s : SessionId) (c : Nat) {f : Context → Context}
    (badge : ∀ ctx, (f ctx).badge = ctx.badge)
    (receiver : ∀ ctx, (f ctx).slot.receiver = ctx.slot.receiver) :
    (n.modifyContext s c f).Kept ps := by
  cases found : n.session? s with
  | none =>
    have same : n.modifyContext s c f = n := modify_self fun ses found' => by
      rw [found] at found'
      cases found'
    rwa [same]
  | some ses =>
    refine h.modify found h.distinct (fun _ _ _ => Iff.rfl) (fun no mem => ?_)
      fun k no registered => h.owned s ses k no found registered
    obtain ⟨ctx, known, held, registered⟩ := h.stands_found found mem
    simp only [Transactions.context?_modify, known]
    split
    · refine ⟨f ctx, rfl, (receiver ctx).trans held, ?_⟩
      rw [Context.key_of_badge (badge ctx)]
      exact registered
    · exact ⟨ctx, rfl, held, registered⟩

theorem Kept.enroll (h : n.Kept ps) {s : SessionId} {ses : Session} {f : Session → Session}
    {c : Context} (found : n.session? s = some ses) (blank : c.Blank)
    (fresh : ses.transactions.index.get? c.key = none)
    (enrolls : (f ses).transactions = ses.transactions.enroll c) :
    (n.modify s f).Kept ((s, ses.transactions.contexts.length) :: ps) := by
  have index : (ses.transactions.enroll c).index =
    ses.transactions.index.insert c.key ses.transactions.contexts.length := rfl
  refine h.modify found (List.nodup_cons.2 ⟨h.fresh found, h.distinct⟩) (fun t no other => ?_)
    (fun no mem => ?_) fun k no registered => ?_
  · refine ⟨fun mem => (List.mem_cons.1 mem).resolve_left ?_, List.mem_cons_of_mem _⟩
    rintro ⟨⟩
    exact other rfl
  · rw [enrolls, index]
    rcases List.mem_cons.1 mem with new | mem
    · cases new
      refine ⟨_, ses.transactions.context?_enroll_self c, ?_, KeyMap.get?_insert_self ..⟩
      rw [blank.slot]
      rfl
    · obtain ⟨ctx, known, held, registered⟩ := h.stands_found found mem
      have apart : c.key ≠ ctx.key := fun e => by rw [e, registered] at fresh; cases fresh
      refine ⟨ctx, ses.transactions.context?_of_enroll known, held, ?_⟩
      rw [KeyMap.get?_insert, if_neg apart, registered]
  · rw [enrolls, index, KeyMap.get?_insert] at registered
    split at registered
    · cases registered
      exact List.mem_cons_self
    · exact List.mem_cons_of_mem _ (h.owned s ses k no found registered)

theorem Kept.release {s : SessionId} {c : Nat} {ctx : Context} {f : Session → Session}
    {g : Context → Context} (h : n.Kept ((s, c) :: ps)) (sound : n.Sound)
    (known : n.context? s c = some ctx)
    (released : ∀ ses, (f ses).transactions =
      (ses.transactions.modify c g).delete ctx.channel ctx.tx) : (n.modify s f).Kept ps := by
  obtain ⟨ses, found, known⟩ := context?_eq_some_iff.1 known
  obtain ⟨ctx', known', _, registered⟩ := h.stands_found found List.mem_cons_self
  cases Option.some.inj (known.symm.trans known')
  have index : (f ses).transactions.index = ses.transactions.index.erase ctx.key := by
    rw [released]
    rfl
  have contexts : (f ses).transactions.context? = (ses.transactions.modify c g).context? := by
    rw [released]
    rfl
  obtain ⟨absent, distinct⟩ := List.nodup_cons.1 h.distinct
  refine h.modify found distinct (fun t no other => ?_) (fun no mem => ?_) fun k no there => ?_
  · refine ⟨List.mem_cons_of_mem _, fun mem => (List.mem_cons.1 mem).resolve_left ?_⟩
    rintro ⟨⟩
    exact other rfl
  · obtain ⟨ctx', known', held', registered'⟩ :=
      h.stands_found found (List.mem_cons_of_mem _ mem)
    have other : c ≠ no := fun e => absurd (e ▸ mem) absent
    have apart : ctx.key ≠ ctx'.key := fun e => by
      rw [e, registered'] at registered
      exact other (Option.some.inj registered).symm
    refine ⟨ctx', ?_, held', ?_⟩
    · rw [contexts, Transactions.context?_modify, if_neg other, known']
    · rw [index, KeyMap.get?_erase, if_neg apart, registered']
  · rw [index, KeyMap.get?_erase] at there
    split at there
    · cases there
    · rename_i apart
      refine (List.mem_cons.1 (h.owned s ses k no found there)).resolve_left fun e => ?_
      cases e
      obtain ⟨ctx'', known'', same⟩ := (sound.transactions s ses found).indexed k c there
      cases Option.some.inj (known.symm.trans known'')
      exact apart same

theorem context?_deleteContext (n : Node) (s t : SessionId) (channel tx : String) (no : Nat) :
    (n.deleteContext s channel tx).context? t no = n.context? t no := by
  unfold deleteContext context?
  rw [session?_modify_if]
  split
  · cases n.session? t with
    | none => rfl
    | some ses => rfl
  · rfl

theorem Kept.delete {s : SessionId} {c : Nat} {ctx : Context} (h : n.Kept ((s, c) :: ps))
    (sound : n.Sound) (known : n.context? s c = some ctx) :
    (n.deleteContext s ctx.channel ctx.tx).Kept ps := by
  refine h.release (g := id) sound known fun ses => ?_
  have still : ses.transactions.modify c id = ses.transactions :=
    congrArg (fun contexts => { ses.transactions with contexts }) (List.modify_id ..)
  rw [still]

end Kept

/-! ## Places -/

/-- The places of the executions that wait, and others. -/
def places (n : Node) (others : List Place) : List Place :=
  n.calls.map (fun call => (call.session, call.context)) ++ others

section Places

variable {n n' : Node} {others : List Place}

theorem place_of_call {call : Call} (waits : call ∈ n.calls) :
    (call.session, call.context) ∈ n.places others :=
  List.mem_append_left _ (List.mem_map_of_mem waits)

theorem places_touch (touches : Touches n n') : n'.places others = n.places others := by
  unfold places
  rw [touches.calls]

/-- An execution that waits no longer takes its place with it. -/
theorem places_forget {call : Call} (waits : call ∈ n.calls)
    (distinct : (n.places others).Nodup) :
    (n.places others).Perm ((call.session, call.context) :: (n.forget call).places others) := by
  have apart := (List.nodup_append.1 distinct).2.2 _ (List.mem_map_of_mem waits)
  refine (List.perm_ext_iff_of_nodup distinct ?_).2 fun p => ?_
  · refine List.nodup_cons.2 ⟨fun mem => ?_, distinct.sublist ?_⟩
    · rcases List.mem_append.1 mem with mem | mem
      · obtain ⟨call', there, same⟩ := List.mem_map.1 mem
        cases (Prod.mk.injEq .. ▸ same : _ ∧ _) with
        | intro session context => exact (mem_forget.1 there).2 ⟨session, context⟩
      · exact apart _ mem rfl
    · exact (List.filter_sublist.map _).append_right others
  · unfold places
    simp only [List.mem_append, List.mem_cons, List.mem_map]
    constructor
    · rintro (⟨call', there, rfl⟩ | mem)
      · by_cases same : call'.session = call.session ∧ call'.context = call.context
        · exact .inl (by rw [same.1, same.2])
        · exact .inr (.inl ⟨call', mem_forget.2 ⟨there, same⟩, rfl⟩)
      · exact .inr (.inr mem)
    · rintro (rfl | ⟨call', there, rfl⟩ | mem)
      · exact .inl ⟨call, waits, rfl⟩
      · exact .inl ⟨call', (mem_forget.1 there).1, rfl⟩
      · exact .inr mem

theorem mem_places_began {s : SessionId} {ses : Session} {c : Context} {m : Message}
    {origin : Origin} {p : Place} (mem : p ∈ (n.began s ses c m origin).places others) :
    p ∈ n.places others ∨ p = (s, ses.transactions.contexts.length) := by
  unfold places began at mem
  simp only [List.map_append, List.mem_append, List.map_cons, List.map_nil,
    List.mem_singleton] at mem
  rcases mem with (mem | new) | mem
  · exact .inl (List.mem_append_left _ mem)
  · exact .inr new
  · exact .inl (List.mem_append_right _ mem)

theorem kept_began {s : SessionId} {ses : Session} {c : Context} (h : n.Kept (n.places others))
    (m : Message) (origin : Origin) (found : n.session? s = some ses) (blank : c.Blank)
    (fresh : ses.transactions.index.get? c.key = none) :
    (n.began s ses c m origin).Kept ((n.began s ses c m origin).places others) := by
  have enrolled : (n.modify s fun ses =>
      { ses with
        transactions := ses.transactions.enroll c
        commands := ses.commands ++ [.next { message := m, forward := true }] }).Kept
      ((s, ses.transactions.contexts.length) :: n.places others) :=
    h.enroll found blank fresh rfl
  have kept : (n.began s ses c m origin).Kept
      ((s, ses.transactions.contexts.length) :: n.places others) := enrolled.congr rfl
  refine kept.perm ?_
  unfold places began
  rw [List.map_append, List.append_assoc]
  exact List.perm_middle.symm

theorem kept_released {call : Call} {ctx : Context} {f : Context → Context} (sound : n.Sound)
    (h : n.Kept (n.places others)) (waits : call ∈ n.calls)
    (known : n.context? call.session call.context = some ctx) :
    (n.released call ctx f).Kept ((n.released call ctx f).places others) := by
  have first := h.perm (places_forget waits h.distinct)
  have left := first.release (f := fun ses =>
    { ses with
      transactions := (ses.transactions.modify call.context f).delete ctx.channel ctx.tx })
    sound known fun _ => rfl
  exact left.congr rfl

theorem kept_effect (sound : n.Sound) (h : n.Kept (n.places others)) (effect : Effect n n') :
    n'.Kept (n'.places others) := by
  cases effect with
  | touch touches =>
    rw [places_touch touches]
    exact kept_touch h touches
  | @begin s t ses ses' ctx c' c m m' spec rights found _ _ _ _ made found' fresh _ =>
    have claimed : (n.modify s (·.claim m.key)).Kept
        ((n.modify s (·.claim m.key)).places others) :=
      kept_touch h (.modify s fun ses _ => .marked ses.transactions _)
    exact kept_began claimed m' _ found' (blank_of_called made) fresh
  | release waits known badge once touches =>
    rw [places_touch touches]
    exact kept_touch (kept_released sound h waits known) touches
  | @forget call waits unknown =>
    obtain ⟨ses, ctx, found, known, _⟩ := h.stands _ _ (place_of_call waits)
    rw [context?_eq_some_iff.2 ⟨ses, found, known⟩] at unknown
    cases unknown

end Places

/-! ## Whoever waits is told -/

def HasMessage (n : Node) (s : SessionId) (c : Nat) : Prop :=
  ∃ ctx, n.context? s c = some ctx ∧ ctx.slot.message.isSome = true

/-- Whoever waits at some places, on a session that has ended, has been told, but for those who came
too late. -/
def Informed (late : Place → Prop) (ps : List Place) (n : Node) : Prop :=
  ∀ s c, (s, c) ∈ ps → ¬ late (s, c) → ∀ ses, n.session? s = some ses → ses.phase = .ended →
    n.HasMessage s c

def Live (n : Node) (s : SessionId) : Prop :=
  ∀ ses, n.session? s = some ses → ses.phase ≠ .ended

section Informed

variable {n n' : Node} {ps us : List Place} {late late' : Place → Prop}

theorem hasMessage_iff {s : SessionId} {ses : Session} {c : Nat} (found : n.session? s = some ses) :
    n.HasMessage s c ↔
      ∃ ctx, ses.transactions.context? c = some ctx ∧ ctx.slot.message.isSome = true := by
  unfold HasMessage context?
  rw [found]
  rfl

theorem isSome_of_follows {ctx ctx' : Context} (follows : ctx.Follows ctx')
    (held : ctx.slot.message.isSome = true) : ctx'.slot.message.isSome = true := by
  obtain ⟨m, held⟩ := Option.isSome_iff_exists.1 held
  rw [follows.message m held]
  rfl

theorem hasMessage_modifyContext {s t : SessionId} {c no : Nat} (f : Context → Context)
    (other : (t, no) ≠ (s, c)) (h : n.HasMessage t no) :
    (n.modifyContext s c f).HasMessage t no := by
  obtain ⟨ctx, known, held⟩ := h
  refine ⟨ctx, ?_, held⟩
  rw [context?_modifyContext, if_neg, known]
  rintro ⟨rfl, rfl⟩
  exact other rfl

theorem Informed.mono (h : n.Informed late ps) (more : ∀ p, late p → late' p) :
    n.Informed late' ps := fun s c mem early => h s c mem fun came => early (more _ came)

/-- While no session ends, it is enough that messages stay where they are needed. -/
theorem Informed.calm (h : n.Informed late ps) (calm : Calm n n')
    (goes : ∀ s c, (s, c) ∈ us → late (s, c) ∨ n.Live s ∨
      (s, c) ∈ ps ∧ (n.HasMessage s c → n'.HasMessage s c)) : n'.Informed late us := by
  intro s c mem early ses' found' ended'
  obtain ⟨ses, found, ended, _⟩ := calm s ses' found' ended'
  rcases goes s c mem with came | live | ⟨before, stays⟩
  · exact absurd came early
  · exact absurd ended (live ses found)
  · exact stays (h s c before early ses found ended)

/-- The end of a session tells everybody who waits on it. -/
theorem informed_ended {s : SessionId} {ses : Session} (kept : n.Kept ps)
    (among : ∀ p ∈ us, p ∈ ps) (h : n.Informed late us) (found : n.session? s = some ses)
    (ends : Ended n s n') : n'.Informed late us := by
  intro t c mem early ses' found' ended'
  by_cases same : s = t
  · subst same
    obtain ⟨_, there, _, _, follows, told⟩ := ends.itself ses found
    cases Option.some.inj (found'.symm.trans there)
    rw [hasMessage_iff found']
    obtain ⟨ctx, known, held, registered⟩ := kept.stands_found found (among _ mem)
    by_cases ended : ses.phase = .ended
    · obtain ⟨ctx', known', message⟩ := (hasMessage_iff found).1 (h s c mem early ses found ended)
      obtain ⟨ctx'', known'', goes⟩ := follows.contexts c ctx' known'
      exact ⟨ctx'', known'', isSome_of_follows goes message⟩
    · exact told ended _ c ctx registered known (held ▸ Receiver.noConfusion)
  · have still := ends.others t same
    rw [still] at found'
    obtain ⟨ctx, known, message⟩ := h t c mem early ses' found' ended'
    exact ⟨ctx, by rw [context?, still]; exact known, message⟩

/-- A call is begun on a session that has not ended. -/
theorem live_of_resolve (proper : n.Proper) {target : ContractInstance} {t : SessionId}
    (resolved : n.directory.resolve target = .ok t) : n.Live t := by
  have listed : ∃ k, n.directory.get? k = some t := by
    unfold Directory.resolve at resolved
    split at resolved
    · rename_i s entry
      cases resolved
      exact ⟨_, entry⟩
    · split at resolved
      · rename_i s only
        cases resolved
        split at only
        · have mem : t ∈ n.directory.versions target.name := only ▸ List.mem_cons_self
          obtain ⟨⟨k, t'⟩, entry, same⟩ := List.mem_map.1 mem
          cases same
          exact ⟨k, KeyMap.mem_entries_iff.1 (List.mem_filter.1 entry).1⟩
        · cases only
      · cases resolved
      · cases resolved
  obtain ⟨k, entry⟩ := listed
  exact fun ses found => (proper.serves found entry).live

end Informed

/-! ## What goes on -/

section Effect

variable {n n' : Node} {others told : List Place} {late : Place → Prop}

theorem context?_touch {s : SessionId} {c : Nat} {ctx : Context} (touches : Touches n n')
    (known : n.context? s c = some ctx) :
    ∃ ctx', n'.context? s c = some ctx' ∧ ctx.Follows ctx' := by
  obtain ⟨ses, found, known⟩ := context?_eq_some_iff.1 known
  obtain ⟨ses', found', follows⟩ := touches.sessions s ses found
  obtain ⟨ctx', known', goes⟩ := follows.contexts c ctx known
  exact ⟨ctx', context?_eq_some_iff.2 ⟨ses', found', known'⟩, goes⟩

/-- A context that is registered changes no other one. -/
theorem context?_enrolled {s t : SessionId} {f : Session → Session} {c ctx : Context} {no : Nat}
    (enrolls : ∀ ses, (f ses).transactions = ses.transactions.enroll c)
    (known : n.context? t no = some ctx) : (n.modify s f).context? t no = some ctx := by
  obtain ⟨ses, found, known⟩ := context?_eq_some_iff.1 known
  rw [context?_eq_some_iff, session?_modify_if, found]
  split
  · refine ⟨f ses, rfl, ?_⟩
    rw [enrolls]
    exact ses.transactions.context?_of_enroll known
  · exact ⟨ses, rfl, known⟩

theorem context?_began {s t : SessionId} {ses : Session} {c ctx : Context} {no : Nat} (m : Message)
    (origin : Origin) (known : n.context? t no = some ctx) :
    (n.began s ses c m origin).context? t no = some ctx :=
  context?_enrolled (f := fun ses =>
    { ses with
      transactions := ses.transactions.enroll c
      commands := ses.commands ++ [.next { message := m, forward := true }] }) (fun _ => rfl) known

/-- An execution that waits no longer changes no other context. -/
theorem context?_released {call : Call} {ctx ctx' : Context} {f : Context → Context} {s : SessionId}
    {c : Nat} (other : (s, c) ≠ (call.session, call.context))
    (known : n.context? s c = some ctx') : (n.released call ctx f).context? s c = some ctx' := by
  obtain ⟨ses, found, known⟩ := context?_eq_some_iff.1 known
  refine context?_eq_some_iff.2 ?_
  change ∃ ses₁, (n.modify call.session _).session? s = some ses₁ ∧
    ses₁.transactions.context? c = some ctx'
  rw [session?_modify_if]
  split
  · rename_i same
    have apart : call.context ≠ c := fun e => other (by rw [same, e])
    rw [found]
    refine ⟨_, rfl, ?_⟩
    show (ses.transactions.modify call.context f).context? c = some ctx'
    rw [Transactions.context?_modify, if_neg apart, known]
  · exact ⟨ses, found, known⟩

/-- Contexts that still have their places afterwards go on. -/
theorem follows_effect (kept : n.Kept (n.places others)) (effect : Effect n n') {s : SessionId}
    {c : Nat} {ctx : Context} (stays : (s, c) ∈ n'.places others)
    (known : n.context? s c = some ctx) :
    ∃ ctx', n'.context? s c = some ctx' ∧ ctx.Follows ctx' := by
  cases effect with
  | touch touches => exact context?_touch touches known
  | @begin s' t ses ses' ctx' c' c'' m m' spec rights =>
    have claimed : Touches n (n.modify s' (·.claim m.key)) :=
      .modify s' fun ses _ => .marked ses.transactions _
    obtain ⟨ctx₁, known₁, follows⟩ := context?_touch claimed known
    exact ⟨ctx₁, context?_began _ _ known₁, follows⟩
  | @release _ call ctx' f waits known' badge once touches =>
    have divided := places_forget waits kept.distinct
    have absent := (List.nodup_cons.1 (divided.nodup_iff.1 kept.distinct)).1
    have other : (s, c) ≠ (call.session, call.context) := by
      rintro same
      rw [same, places_touch touches] at stays
      exact absent stays
    exact context?_touch touches (context?_released other known)
  | forget waits unknown => exact ⟨ctx, known, .refl ctx⟩

/-- A place that is new is that of a call. -/
theorem old_or_resolved (effect : Effect n n') {s : SessionId} {c : Nat}
    (mem : (s, c) ∈ n'.places others) :
    (s, c) ∈ n.places others ∨ ∃ target, n.directory.resolve target = .ok s := by
  have forgotten (call : Call) (mem : (s, c) ∈ (n.forget call).places others) :
      (s, c) ∈ n.places others := by
    rcases List.mem_append.1 mem with mem | mem
    · exact List.mem_append_left _ ((List.filter_sublist.map _).subset mem)
    · exact List.mem_append_right _ mem
  cases effect with
  | touch touches => exact .inl (places_touch touches ▸ mem)
  | begin found registered known righted resolved made found' fresh on =>
    rcases mem_places_began mem with old | new
    · exact .inl old
    · cases new
      exact .inr ⟨_, resolved⟩
  | @release _ call ctx f waits known badge once touches =>
    rw [places_touch touches] at mem
    exact .inl (forgotten call mem)
  | @forget call waits unknown => exact .inl (forgotten call mem)

theorem places_mono (among : ∀ p ∈ told, p ∈ others) {p : Place} (mem : p ∈ n.places told) :
    p ∈ n.places others := by
  rcases List.mem_append.1 mem with mem | mem
  · exact List.mem_append_left _ mem
  · exact List.mem_append_right _ (among p mem)

theorem informed_effect (proper : n.Proper) (kept : n.Kept (n.places others))
    (among : ∀ p ∈ told, p ∈ others) (h : n.Informed late (n.places told)) (effect : Effect n n')
    (calm : Calm n n') : n'.Informed late (n'.places told) := by
  refine h.calm calm fun s c mem => ?_
  rcases old_or_resolved effect mem with old | ⟨target, resolved⟩
  · refine .inr (.inr ⟨old, fun ⟨ctx, known, message⟩ => ?_⟩)
    obtain ⟨ctx', known', follows⟩ := follows_effect kept effect (places_mono among mem) known
    exact ⟨ctx', known', isSome_of_follows follows message⟩
  · -- A new execution waits on a session that goes on.
    exact .inr (.inl (live_of_resolve proper resolved))

theorem informed_deed (proper : n.Proper) (kept : n.Kept (n.places others))
    (among : ∀ p ∈ told, p ∈ others) (h : n.Informed late (n.places told)) (deed : Deed n n') :
    n'.Informed late (n'.places told) := by
  rcases calm_or_ended proper deed with calm | ⟨s, ses, found, ends⟩
  · exact informed_effect proper kept among h (effect_of_deed deed) calm
  · have same : n'.places told = n.places told := by
      unfold places
      rw [ends.calls]
    rw [same]
    exact informed_ended kept (fun p mem => places_mono among mem) h found ends

end Effect

end Node

end ContractNode
