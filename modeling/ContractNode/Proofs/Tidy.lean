import ContractNode.Proofs.Holders

/-!
# Watched runs

A run is watched by noting which handshakes were begun whose contexts were not deleted yet.

* `Handshake`, `Watched` : such a handshake, and a node with those that are noted;
* `Watched.orderly` : contexts are deleted once a handshake, and no session is registered by hand;
* `Node.Tidy` : what holds of a node and the handshakes noted, all along an orderly run
  (`tidy_deed`, `tidy_steps`).
-/

namespace ContractNode

/-- A handshake that was begun, whose context was not deleted yet. -/
structure Handshake where
  session : SessionId
  context : Nat
  channel : String
  tx : String
  /-- A message was taken out of its slot. -/
  told : Bool := false
deriving DecidableEq, Repr

namespace Handshake

def place (h : Handshake) : Place := (h.session, h.context)

/-- What a handshake is of: where its context is, and which transaction. -/
def label (h : Handshake) : Place × String × String := (h.place, h.channel, h.tx)

def isOf (h : Handshake) (s : SessionId) (channel tx : String) : Bool :=
  h.session == s && h.channel == channel && h.tx == tx

/-- A message was taken out of a slot, which may be that of the handshake. -/
def hear (s : SessionId) (c : Nat) (h : Handshake) : Handshake :=
  if h.place = (s, c) then { h with told := true } else h

theorem label_hear (s : SessionId) (c : Nat) (h : Handshake) : (h.hear s c).label = h.label := by
  unfold hear
  split
  · rfl
  · rfl

end Handshake

def handshakePlaces (hs : List Handshake) : List Place := hs.map Handshake.place

def untold (hs : List Handshake) : List Place := handshakePlaces (hs.filter fun h => !h.told)

theorem untold_among (hs : List Handshake) : ∀ p ∈ untold hs, p ∈ handshakePlaces hs :=
  fun _ mem => (List.filter_sublist.map _).subset mem

theorem untold_sublist {hs hs' : List Handshake} (fewer : hs'.Sublist hs) :
    ∀ p ∈ untold hs', p ∈ untold hs :=
  fun _ mem => ((fewer.filter _).map _).subset mem

theorem untold_concat {hs : List Handshake} {h : Handshake} (quiet : h.told = false) :
    untold (hs ++ [h]) = untold hs ++ [h.place] := by
  unfold untold handshakePlaces
  simp [List.filter_append, quiet]

/-- A handshake of which nothing was heard yet is not the one that hears something. -/
theorem mem_untold_hear {s : SessionId} {c : Nat} {hs : List Handshake} {p : Place}
    (mem : p ∈ untold (hs.map (Handshake.hear s c))) : p ∈ untold hs ∧ p ≠ (s, c) := by
  unfold untold handshakePlaces at mem ⊢
  obtain ⟨shake', mem', same⟩ := List.mem_map.1 mem
  obtain ⟨mem', off⟩ := List.mem_filter.1 mem'
  obtain ⟨shake, there, rfl⟩ := List.mem_map.1 mem'
  unfold Handshake.hear at off same
  split at off
  · cases off
  · rename_i other
    rw [if_neg other] at same
    exact ⟨List.mem_map.2 ⟨shake, List.mem_filter.2 ⟨there, off⟩, same⟩, same ▸ other⟩

/-- A node, and the handshakes that are noted. -/
structure Watched where
  node : Node
  handshakes : List Handshake := []

namespace Watched

def noted (w : Watched) : Act → List Handshake
  | .ready s channel tx signedProposal proposal =>
    match (w.node.ready s channel tx signedProposal proposal).1 with
    | .ok context => w.handshakes ++ [{ session := s, context, channel, tx }]
    | .error _ => w.handshakes
  | .deleteContext s channel tx => w.handshakes.eraseP fun h => h.isOf s channel tx
  | .poll s c =>
    if (w.node.poll s c).1.isSome then w.handshakes.map (Handshake.hear s c) else w.handshakes
  | _ => w.handshakes

def step (w : Watched) (a : Act) : Watched := ⟨w.node.step a, w.noted a⟩

/-- A watched node carries acts out, one after the other, and comes to rest after each of them. -/
def steps (w : Watched) (acts : List Act) : Watched := acts.foldl step w

/-- Whether an act is in order: a context is deleted only for a handshake that is noted, and no
session is registered by hand. -/
def allows (w : Watched) : Act → Bool
  | .deleteContext s channel tx => w.handshakes.any fun h => h.isOf s channel tx
  | .registerKey _ _ => false
  | _ => true

def orderly (w : Watched) : List Act → Bool
  | [] => true
  | a :: acts => w.allows a && (w.step a).orderly acts

theorem node_steps (w : Watched) (acts : List Act) : (w.steps acts).node = w.node.steps acts := by
  induction acts generalizing w with
  | nil => rfl
  | cons a acts ih => exact ih (w.step a)

end Watched

namespace Node

/-- The registered contexts are those of the executions that wait and of the handshakes noted, and
whoever waits on a session that has ended has been told, but for those who came too late. -/
structure Tidy (late : Place → Prop) (hs : List Handshake) (n : Node) : Prop where
  sound : n.Sound
  proper : n.Proper
  closing : n.Closing
  kept : n.Kept (n.places (handshakePlaces hs))
  named : ∀ h ∈ hs, ∀ ctx, n.context? h.session h.context = some ctx →
    ctx.channel = h.channel ∧ ctx.tx = h.tx
  informed : n.Informed late (n.places (untold hs))

section Deeds

variable {n n' : Node} {late : Place → Prop} {hs : List Handshake}

theorem Tidy.mono {late' : Place → Prop} (h : n.Tidy late hs) (more : ∀ p, late p → late' p) :
    n.Tidy late' hs := { h with informed := h.informed.mono more }

theorem known_of_handshake (h : n.Tidy late hs) {shake : Handshake} (mem : shake ∈ hs) :
    ∃ ctx, n.context? shake.session shake.context = some ctx := by
  have place : shake.place ∈ n.places (handshakePlaces hs) :=
    List.mem_append_right _ (List.mem_map_of_mem mem)
  obtain ⟨ses, ctx, found, known, _⟩ := h.kept.stands _ _ place
  exact ⟨ctx, context?_eq_some_iff.2 ⟨ses, found, known⟩⟩

theorem named_follows (h : n.Tidy late hs)
    (follows : ∀ shake ∈ hs, ∀ ctx, n.context? shake.session shake.context = some ctx →
      ∃ ctx', n'.context? shake.session shake.context = some ctx' ∧ ctx'.badge = ctx.badge) :
    ∀ shake ∈ hs, ∀ ctx, n'.context? shake.session shake.context = some ctx →
      ctx.channel = shake.channel ∧ ctx.tx = shake.tx := by
  intro shake mem ctx known
  obtain ⟨ctx₀, known₀⟩ := known_of_handshake h mem
  obtain ⟨ctx', known', badge⟩ := follows shake mem ctx₀ known₀
  cases Option.some.inj (known.symm.trans known')
  obtain ⟨channel, tx⟩ := h.named shake mem ctx₀ known₀
  simp only [Context.badge, Prod.mk.injEq] at badge
  exact ⟨badge.1.trans channel, badge.2.1.trans tx⟩

/-- A steady change leaves a node tidy as long as its contexts are accounted for and those who have
been told keep their messages. -/
theorem Tidy.steady {hs' : List Handshake} (h : n.Tidy late hs) (steady : Steady n n')
    (sound : n'.Sound) (kept : n'.Kept (n'.places (handshakePlaces hs')))
    (named : ∀ shake ∈ hs', ∀ ctx, n'.context? shake.session shake.context = some ctx →
      ctx.channel = shake.channel ∧ ctx.tx = shake.tx)
    (goes : ∀ s c, (s, c) ∈ n'.places (untold hs') → late (s, c) ∨ n.Live s ∨
      (s, c) ∈ n.places (untold hs) ∧ (n.HasMessage s c → n'.HasMessage s c)) : n'.Tidy late hs' where
  sound := sound
  proper := h.proper.steady steady
  closing := closing_calm h.closing (calm_steady steady)
  kept := kept
  named := named
  informed := h.informed.calm (calm_steady steady) goes

theorem tidy_deed (h : n.Tidy late hs) (deed : Deed n n') : n'.Tidy late hs := by
  have effect := effect_of_deed deed
  refine ⟨sound_effect h.sound effect, proper_deed h.proper deed,
    closing_deed h.proper h.closing deed, kept_effect h.sound h.kept effect,
    named_follows h fun shake mem ctx known => ?_,
    informed_deed h.proper h.kept (untold_among hs) h.informed deed⟩
  have stays : shake.place ∈ n'.places (handshakePlaces hs) :=
    List.mem_append_right _ (List.mem_map_of_mem mem)
  obtain ⟨ctx', known', follows⟩ := follows_effect h.kept effect stays known
  exact ⟨ctx', known', follows.badge⟩

theorem tidy_path (h : n.Tidy late hs) (path : Path n n') : n'.Tidy late hs := by
  induction path with
  | refl => exact h
  | tail _ deed ih => exact tidy_deed ih deed

theorem tidy_touch (h : n.Tidy late hs) (touches : Touches n n') (proper : n'.Proper)
    (calm : Calm n n') : n'.Tidy late hs := by
  have effect := Effect.touch touches
  refine ⟨sound_touch h.sound touches, proper, closing_calm h.closing calm,
    kept_effect h.sound h.kept effect, named_follows h fun shake mem ctx known => ?_,
    informed_effect h.proper h.kept (untold_among hs) h.informed effect calm⟩
  obtain ⟨ctx', known', follows⟩ := context?_touch touches known
  exact ⟨ctx', known', follows.badge⟩

end Deeds

/-! ## What comes from outside -/

section Acts

variable {n n' : Node} {late : Place → Prop} {hs : List Handshake}

theorem proper_calm_steady (h : n.Proper) (steady : Steady n n') : n'.Proper ∧ Calm n n' :=
  ⟨h.steady steady, calm_steady steady⟩

theorem proper_calm_openSession (h : n.Proper) (config : SessionConfig) (access : AccessPolicy)
    (launcher : Launcher) : (n.openSession config access launcher).2.Proper ∧
      Calm n (n.openSession config access launcher).2 := by
  refine ⟨⟨fun s ses found => ?_, fun k s entry => ?_⟩, fun s ses found ended => ?_⟩
  · rcases session?_openSession found with found | ⟨_, rfl⟩
    · exact h.sessions s ses found
    · exact ⟨fun on => absurd rfl on, fun _ => rfl⟩
  · obtain ⟨ses, found, serves⟩ := h.directory k s entry
    exact ⟨ses, session?_of_openSession config access launcher found, serves⟩
  · rcases session?_openSession found with found | ⟨_, rfl⟩
    · exact ⟨ses, found, ended, fun closing => closing⟩
    · cases ended

/-- A session whose outbound loop was never started is not about to stop. -/
theorem not_closing_of_idle {ses : Session} (idle : ses.outbound = .idle) : ¬ ses.Closing := by
  rintro (stopped | ⟨running, _⟩)
  · rw [idle] at stopped
    cases stopped
  · rw [idle] at running
    cases running

theorem proper_calm_start (h : n.Proper) (s : SessionId) :
    (n.start s).2.Proper ∧ Calm n (n.start s).2 := by
  rcases n.start_cases s with same | ⟨ses, found, idle, started⟩
  · rw [same]
    exact proper_calm_steady h (.refl n)
  · rw [started]
    have proper := h.modify found
      (f := fun ses => { ses with inbound := .running, outbound := .running })
      ⟨fun _ => Loop.noConfusion, (h.sessions s ses found).unregistered⟩
      fun k serves => ⟨serves.registered, serves.live, serves.place⟩
    refine ⟨proper, fun t ses' found' ended => ?_⟩
    rcases session?_modify_cases found' with ⟨rfl, ses₁, there, rfl⟩ | ⟨_, found'⟩
    · cases Option.some.inj (found.symm.trans there)
      exact ⟨ses, found, ended, fun closing => absurd closing (not_closing_of_idle idle)⟩
    · exact ⟨ses', found', ended, fun closing => closing⟩

/-- An act that has nothing to do with contexts ends no session. -/
theorem proper_calm_act (h : n.Proper) {a : Act} (quiet : a.isQuiet = true)
    (byHand : ∀ key s, a ≠ .registerKey key s) : (n.act a).Proper ∧ Calm n (n.act a) := by
  cases talker : a.talker? with
  | some s => exact proper_calm_steady h (steady_talks (n.talks_act talker))
  | none =>
    cases a with
    | handle | ready | poll | deleteContext | execute | run | pass => cases quiet
    | registerKey key s => exact absurd rfl (byHand key s)
    | openSession config access launcher => exact proper_calm_openSession h config access launcher
    | start s => exact proper_calm_start h s
    | deregister s => exact ⟨(proper_deregister h s).1, calm_deregister n s⟩
    | deregisterKey key =>
      refine ⟨h.fewer fun k s entry => (get?_deregister_some entry).2, fun s ses found ended => ?_⟩
      exact ⟨ses, found, ended, fun closing => closing⟩
    | notify s m => exact proper_calm_steady h (.modify n s fun ses _ => ses.steady_notify m)
    | seed channel tx space collection entries =>
      obtain ⟨ledger, given⟩ := n.seed_eq channel tx space collection entries
      show (n.seed channel tx space collection entries).2.Proper ∧
        Calm n (n.seed channel tx space collection entries).2
      rw [given]
      exact proper_calm_steady h (.outside rfl rfl)
    | createChannel | gate | ungate => exact proper_calm_steady h (.outside rfl rfl)
    | _ => cases talker

/-- A session has ended while its outbound loop goes on, and a context of it is not there yet. -/
def Lingers (n : Node) (p : Place) : Prop :=
  ∃ ses, n.session? p.1 = some ses ∧ ses.phase = .ended ∧ ses.outbound ≠ .stopped ∧
    ses.transactions.context? p.2 = none

/-- Whoever begins to wait on a session does so before it ends, or comes too late. -/
theorem late_or_live (came : ∀ p, n.Lingers p → late p) {s : SessionId} {ses : Session}
    (found : n.session? s = some ses) (on : ses.outbound ≠ .stopped) :
    late (s, ses.transactions.contexts.length) ∨ n.Live s := by
  by_cases ended : ses.phase = .ended
  · exact .inl (came _ ⟨ses, found, ended, on, List.getElem?_eq_none (Nat.le_refl _)⟩)
  · refine .inr fun ses' found' => ?_
    cases Option.some.inj (found.symm.trans found')
    exact ended

/-- On a node at rest, a session whose outbound loop goes on has not ended. -/
theorem live_of_on (h : n.Closing) (rest : n.AtRest) {s : SessionId} {ses : Session}
    (found : n.session? s = some ses) (on : ses.outbound ≠ .stopped) : n.Live s := by
  intro ses' found' ended
  cases Option.some.inj (found.symm.trans found')
  rcases h s ses found ended with stopped | ⟨running, order⟩
  · exact on stopped
  · rw [((atRest_iff.1 rest).2 s ses found).commands running] at order
    cases order

theorem not_lingers_of_rest (h : n.Closing) (rest : n.AtRest) (p : Place) : ¬ n.Lingers p :=
  fun ⟨ses, found, ended, on, _⟩ => live_of_on h rest found on ses found ended

/-- On a node at rest, no execution that waits has its message. -/
theorem silent_of_rest (rest : n.AtRest) {call : Call} (waits : call ∈ n.calls) :
    ¬ n.HasMessage call.session call.context := by
  rintro ⟨ctx, known, held⟩
  have still := (atRest_iff.1 rest).1 call waits
  unfold finish? at still
  obtain ⟨m, held⟩ := Option.isSome_iff_exists.1 held
  simp [known, held] at still

theorem tidy_began (h : n.Tidy late hs) {s : SessionId} {ses : Session} {c : Context} (m : Message)
    (origin : Origin) (found : n.session? s = some ses) (blank : c.Blank)
    (fresh : ses.transactions.index.get? c.key = none)
    (came : late (s, ses.transactions.contexts.length) ∨ n.Live s) :
    (n.began s ses c m origin).Tidy late hs := by
  refine h.steady (steady_began n s ses c m origin) (sound_began h.sound m origin found blank)
    (kept_began h.kept m origin found blank fresh)
    (named_follows h fun shake mem ctx known => ⟨ctx, context?_began m origin known, rfl⟩)
    fun t no mem => ?_
  rcases mem_places_began mem with old | new
  · exact .inr (.inr
      ⟨old, fun ⟨ctx, known, message⟩ => ⟨ctx, context?_began m origin known, message⟩⟩)
  · cases new
    exact came.imp_right .inl

theorem tidy_answered (h : n.Tidy late hs) (results : List (String × Except SessionError Message)) :
    { n with results }.Tidy late hs := by
  have steady : Steady n { n with results } := .outside rfl rfl
  exact tidy_touch h (.outside rfl rfl) (h.proper.steady steady) (calm_steady steady)

theorem tidy_buried (h : n.Tidy late hs) (s : SessionId) {c : Context} (once : c.cursors.Once) :
    (n.modify s fun ses => { ses with transactions := ses.transactions.bury c }).Tidy late hs := by
  have steady : Steady n (n.modify s fun ses =>
      { ses with transactions := ses.transactions.bury c }) := .apart n s fun _ => ⟨rfl, rfl⟩
  exact tidy_touch h (.modify s fun ses _ => .bury _ once) (h.proper.steady steady)
    (calm_steady steady)

theorem tidy_started (h : n.Tidy late hs) (came : ∀ p, n.Lingers p → late p) {s : SessionId}
    {label : String}
    {kind : MessageKind} {P : Context → Prop} (blank : ∀ c, P c → c.Blank)
    (started : Started n s label kind P n') :
    n'.Tidy late hs := by
  cases started with
  | refused e => exact tidy_answered h _
  | stopped e found fresh off given =>
    refine tidy_answered (tidy_buried h s ?_) _
    exact CursorTable.once_closeAll ((blank _ given).cursors ▸ CursorTable.once_empty)
  | waits m found fresh on given =>
    exact tidy_began h m _ found (blank _ given) fresh (late_or_live came found on)

theorem tidy_shaking (h : n.Tidy late hs) (came : ∀ p, n.Lingers p → late p) {s : SessionId}
    {ses : Session}
    {c : Context} (m : Message) (found : n.session? s = some ses) (blank : c.Blank)
    (fresh : ses.transactions.index.get? c.key = none) (on : ses.outbound ≠ .stopped) :
    (n.shaking s c m).Tidy late (hs ++
      [{ session := s, context := ses.transactions.contexts.length
         channel := c.channel, tx := c.tx }]) := by
  have steady : Steady n (n.shaking s c m) :=
    .modify n s fun _ _ => ⟨rfl, List.mem_append_left _⟩
  have enrolled : (n.shaking s c m).Kept
      ((s, ses.transactions.contexts.length) :: n.places (handshakePlaces hs)) :=
    h.kept.enroll found blank fresh rfl
  have goes {t : SessionId} {no : Nat} {ctx : Context} (known : n.context? t no = some ctx) :
      (n.shaking s c m).context? t no = some ctx := context?_enrolled (fun _ => rfl) known
  refine h.steady steady (h.sound.enroll s blank fun _ _ => rfl) (enrolled.perm ?_)
    (fun shake mem ctx known => ?_) fun t no mem => ?_
  · unfold places handshakePlaces
    rw [List.map_append, ← List.append_assoc]
    exact (List.perm_append_singleton _ _).symm
  · rcases List.mem_append.1 mem with mem | new
    · exact named_follows h (fun _ _ ctx known => ⟨ctx, goes known, rfl⟩) shake mem ctx known
    · cases List.mem_singleton.1 new
      have made : (n.shaking s c m).context? s ses.transactions.contexts.length = some _ :=
        context?_eq_some_iff.2
          ⟨_, session?_modify found, ses.transactions.context?_enroll_self c⟩
      cases Option.some.inj (known.symm.trans made)
      exact ⟨rfl, rfl⟩
  · unfold places at mem ⊢
    rw [untold_concat rfl, ← List.append_assoc] at mem
    rcases List.mem_append.1 mem with old | new
    · exact .inr (.inr ⟨old, fun ⟨ctx, known, message⟩ => ⟨ctx, goes known, message⟩⟩)
    · cases List.mem_singleton.1 new
      exact (late_or_live came found on).imp_right .inl

theorem tidy_ready (h : n.Tidy late hs) (came : ∀ p, n.Lingers p → late p) (s : SessionId)
    (channel tx : String)
    (signedProposal : Option SignedProposal) (proposal : Option Proposal) :
    (n.ready s channel tx signedProposal proposal).2.Tidy late
      ((⟨n, hs⟩ : Watched).noted (.ready s channel tx signedProposal proposal)) := by
  have blank := n.blank_newContext channel tx signedProposal proposal
  have readied := readied_ready n s channel tx signedProposal proposal
  unfold Watched.noted
  simp only
  generalize n.ready s channel tx signedProposal proposal = r at readied
  obtain ⟨outcome, n'⟩ := r
  cases readied with
  | refused e => exact h
  | stopped found fresh off => exact tidy_buried h s CursorTable.once_empty
  | waits m found fresh on => exact tidy_shaking h came m found blank fresh on

/-- A message is taken out of a slot, and the same handshakes stay noted. -/
theorem tidy_polled {hs' : List Handshake} (h : n.Tidy late hs) {s : SessionId} {c : Nat}
    (unheard : ∀ call ∈ n.calls, (call.session, call.context) = (s, c) → ¬ n.HasMessage s c)
    (same : hs'.map Handshake.label = hs.map Handshake.label)
    (heard : ∀ t no, (t, no) ∈ untold hs' →
      (t, no) ∈ untold hs ∧ (n.HasMessage t no → (t, no) ≠ (s, c))) : (n.polled s c).Tidy late hs' := by
  have places : handshakePlaces hs' = handshakePlaces hs := by
    have first := congrArg (List.map Prod.fst) same
    rwa [List.map_map, List.map_map] at first
  have kept : (n.polled s c).Kept (n.places (handshakePlaces hs')) := by
    rw [places]
    exact h.kept.modifyContext s c (fun _ => rfl) fun _ => rfl
  have named : ∀ shake ∈ hs, ∀ ctx,
      (n.polled s c).context? shake.session shake.context = some ctx →
        ctx.channel = shake.channel ∧ ctx.tx = shake.tx := named_follows h fun shake _ ctx known => by
    unfold polled
    rw [context?_modifyContext, known]
    split
    · exact ⟨_, rfl, rfl⟩
    · exact ⟨_, rfl, rfl⟩
  refine h.steady (.apart n s fun _ => ⟨rfl, rfl⟩) (sound_polled h.sound s c) kept
    (fun shake' mem' ctx known => ?_) fun t no mem => ?_
  · have labelled : shake'.label ∈ hs.map Handshake.label := same ▸ List.mem_map_of_mem mem'
    obtain ⟨shake, mem, label⟩ := List.mem_map.1 labelled
    simp only [Handshake.label, Handshake.place, Prod.mk.injEq] at label
    obtain ⟨⟨session, context⟩, channel, tx⟩ := label
    rw [← session, ← context] at known
    rw [← channel, ← tx]
    exact named shake mem ctx known
  · rcases List.mem_append.1 mem with waits | mem
    · -- The message of an execution that waits is not there to be taken.
      obtain ⟨call, there, same⟩ := List.mem_map.1 waits
      cases same
      refine .inr (.inr ⟨place_of_call there, fun held => hasMessage_modifyContext _ ?_ held⟩)
      rintro here
      cases here
      exact unheard call there rfl held
    · obtain ⟨before, other⟩ := heard t no mem
      exact .inr (.inr ⟨List.mem_append_right _ before,
        fun held => hasMessage_modifyContext _ (other held) held⟩)

theorem tidy_poll (h : n.Tidy late hs) {s : SessionId} {c : Nat}
    (unheard : ∀ call ∈ n.calls, (call.session, call.context) = (s, c) → ¬ n.HasMessage s c) :
    (n.poll s c).2.Tidy late ((⟨n, hs⟩ : Watched).noted (.poll s c)) := by
  unfold Watched.noted
  simp only
  rcases n.poll_cases s c with ⟨_, polls⟩ | ⟨ctx, known, polls⟩
  · rw [polls]
    exact h
  · rw [polls]
    cases held : ctx.slot.message with
    | some m =>
      simp only [Option.isSome_some, if_true]
      refine tidy_polled h unheard ?_ fun t no mem => ?_
      · rw [List.map_map]
        exact List.map_congr_left fun shake _ => shake.label_hear s c
      · obtain ⟨before, other⟩ := mem_untold_hear mem
        exact ⟨before, fun _ => other⟩
    | none =>
      refine tidy_polled h unheard rfl fun t no mem => ⟨mem, ?_⟩
      rintro ⟨ctx', known', message⟩ same
      cases same
      cases Option.some.inj (known.symm.trans known')
      rw [held] at message
      cases message

/-- The places of handshakes, with that of one of them first. -/
theorem places_middle (n : Node) (before after : List Handshake) (shake : Handshake) :
    (n.places (handshakePlaces (before ++ shake :: after))).Perm
      (shake.place :: n.places (handshakePlaces (before ++ after))) := by
  unfold places handshakePlaces
  rw [List.map_append, List.map_append, ← List.append_assoc, ← List.append_assoc]
  exact List.perm_middle

theorem tidy_deleteContext (h : n.Tidy late hs) {s : SessionId} {channel tx : String}
    (allowed : (⟨n, hs⟩ : Watched).allows (.deleteContext s channel tx) = true) :
    (n.deleteContext s channel tx).Tidy late
      ((⟨n, hs⟩ : Watched).noted (.deleteContext s channel tx)) := by
  unfold Watched.allows at allowed
  unfold Watched.noted
  simp only at allowed ⊢
  obtain ⟨some, mem, isOf⟩ := List.any_eq_true.1 allowed
  obtain ⟨shake, before, after, _, isOf, whole, left⟩ :=
    List.exists_of_eraseP (p := fun h : Handshake => h.isOf s channel tx) mem isOf
  have fewer : (before ++ after).Sublist hs := left ▸ List.eraseP_sublist
  have there : shake ∈ hs := whole ▸ List.mem_append_right _ List.mem_cons_self
  have first := whole ▸ n.places_middle before after shake
  rw [left]
  obtain ⟨ctx, known⟩ := known_of_handshake h there
  obtain ⟨named, tagged⟩ := h.named shake there ctx known
  unfold Handshake.isOf at isOf
  simp only [Bool.and_eq_true, beq_iff_eq] at isOf
  obtain ⟨⟨rfl, rfl⟩, rfl⟩ := isOf
  have kept := (h.kept.perm first).delete h.sound known
  rw [named, tagged] at kept
  refine h.steady (.apart n _ fun _ => ⟨rfl, rfl⟩) (sound_deleteContext h.sound ..) kept
    (fun shake' mem ctx known => ?_) fun t no mem => .inr (.inr ⟨?_, fun ⟨ctx, known, message⟩ => ?_⟩)
  · rw [context?_deleteContext] at known
    exact h.named shake' (fewer.subset mem) ctx known
  · exact places_mono (untold_sublist fewer) mem
  · exact ⟨ctx, (n.context?_deleteContext ..).trans known, message⟩

theorem tidy_act (h : n.Tidy late hs) (came : ∀ p, n.Lingers p → late p) {a : Act}
    (allowed : (⟨n, hs⟩ : Watched).allows a = true)
    (unheard : ∀ s c, a = .poll s c → ∀ call ∈ n.calls,
      (call.session, call.context) = (s, c) → ¬ n.HasMessage s c) :
    (n.act a).Tidy late ((⟨n, hs⟩ : Watched).noted a) := by
  have quiet (quiet : a.isQuiet = true) (byHand : ∀ key s, a ≠ .registerKey key s) :
      (n.act a).Tidy late hs := by
    obtain ⟨proper, calm⟩ := proper_calm_act h.proper quiet byHand
    exact tidy_touch h (touches_act n quiet) proper calm
  cases a with
  | handle s m => exact tidy_path h (path_handle n s m)
  | pass span => exact tidy_path h (path_pass n span)
  | ready s channel tx signedProposal proposal =>
    exact tidy_ready h came s channel tx signedProposal proposal
  | poll s c => exact tidy_poll h (unheard s c rfl)
  | deleteContext s channel tx => exact tidy_deleteContext h allowed
  | execute s label channel m signedProposal proposal =>
    exact tidy_started h came (fun _ ⟨_, given⟩ => given ▸ n.blank_newContext ..)
      (started_execute n s label channel m signedProposal proposal)
  | run s label i =>
    exact tidy_started h came (fun _ ⟨_, made⟩ => blank_of_called made) (started_run n s label i)
  | registerKey key s => cases allowed
  | _ => exact quiet rfl fun _ _ => Act.noConfusion

end Acts

end Node

namespace Watched

/-- Watched nodes stay tidy and at rest all along an orderly run. Nobody comes too late in it. -/
theorem tidy_steps {w : Watched} {late : Place → Prop} (h : w.node.Tidy late w.handshakes)
    (rest : w.node.AtRest) {acts : List Act} (orderly : w.orderly acts = true) :
    (w.steps acts).node.Tidy late (w.steps acts).handshakes := by
  induction acts generalizing w with
  | nil => exact h
  | cons a acts ih =>
    obtain ⟨allowed, orderly⟩ := Bool.and_eq_true_iff.1 orderly
    have tidy := Node.tidy_act h
      (fun p lingers => absurd lingers (Node.not_lingers_of_rest h.closing rest p)) allowed
      fun s c _ call waits same held => by
        cases same
        exact Node.silent_of_rest rest waits held
    exact ih (Node.tidy_path tidy (Node.path_settle _)) (Node.settle_atRest _) orderly

end Watched

theorem Node.tidy_withChannels (channels historyless system : List String) (drill : Drill)
    (late : Place → Prop) : (withChannels channels historyless system drill).Tidy late [] where
  sound := sound_withChannels ..
  proper := {
    sessions := fun s ses found => by cases found
    directory := fun k s entry => by cases entry }
  closing s ses found := by cases found
  kept := {
    stands := fun s c mem => by cases mem
    owned := fun s ses k c found => by cases found
    distinct := .nil }
  named shake mem := by cases mem
  informed s c mem := by cases mem

end ContractNode
