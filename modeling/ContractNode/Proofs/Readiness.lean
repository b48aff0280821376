import ContractNode.Proofs.Verdicts
import ContractNode.Proofs.Vital

/-!
# Whoever waits for a handshake

Whoever begins a handshake waits at a context for the message that completes it. The end of a session
is told to everybody who waits. The message that makes it ready is told to one: whoever waits for the
transaction that it names.

* `Session.Keeps`, `Node.Keeps` : whoever waits at a registered context does so after a move, and the
  session does not end without a word to them (`keeps_move`);
* `Session.Minds`, `Node.Heeds` : besides, a message that is there for them stays;
* `Node.Waits`, `waits_moves` : somebody waits at a registered context, as long as it is registered;
* `Node.Readies`, `readied_of_moves` : a session that becomes ready was shown the message for that;
* `notified_of_ready` : who is told how their handshake came out;
* `unnotified_of_created` : whoever begins a handshake too early is left waiting.
-/

namespace ContractNode

namespace Session

def Awaited (ses : Session) (c : Nat) : Prop :=
  ∃ ctx, ses.transactions.context? c = some ctx ∧ ctx.slot.receiver ≠ .dropped

def Told (ses : Session) (c : Nat) : Prop :=
  ∃ ctx, ses.transactions.context? c = some ctx ∧ ctx.slot.message.isSome = true

/-- A context is registered under a key, as it was. Whoever waits there still does, and the session
has not ended without a word to them. -/
structure Keeps (c : Nat) (k : String) (ses ses' : Session) : Prop where
  registered : ses.transactions.index.get? k = some c
  awaited : ses.Awaited c → ses'.Awaited c
  ended : ses.Awaited c → ses'.phase = .ended → ses.phase = .ended ∨ ses'.Told c

/-- Besides, a message that is there for whoever waits stays. -/
structure Minds (c : Nat) (k : String) (ses ses' : Session) : Prop extends Keeps c k ses ses' where
  told : ses.Told c → ses'.Told c

/-- A context stays known. As long as it is registered under a key, whoever waits there is minded. -/
structure Heeds (c : Nat) (k : String) (ses ses' : Session) : Prop where
  known : (ses'.transactions.context? c).isSome = true
  minds : ses'.transactions.index.get? k = some c → ses.Minds c k ses'

variable {c : Nat} {k : String} {ses ses' ses'' : Session}

theorem Awaited.known (h : ses.Awaited c) : (ses.transactions.context? c).isSome = true := by
  obtain ⟨ctx, there, _⟩ := h
  rw [there]
  rfl

theorem Told.known (h : ses.Told c) : (ses.transactions.context? c).isSome = true := by
  obtain ⟨ctx, there, _⟩ := h
  rw [there]
  rfl

theorem Heeds.trans (h : ses.Heeds c k ses') (h' : ses'.Heeds c k ses'') : ses.Heeds c k ses'' := by
  refine ⟨h'.known, fun registered => ?_⟩
  have later := h'.minds registered
  have first := h.minds later.registered
  refine ⟨⟨first.registered, fun awaited => later.awaited (first.awaited awaited),
    fun awaited ended => ?_⟩, fun told => later.told (first.told told)⟩
  rcases later.ended (first.awaited awaited) ended with ended | told
  · exact (first.ended awaited ended).imp_right later.told
  · exact .inr told

/-- What becomes of a context while whoever holds its slot still does, and finds what was there. -/
theorem Heeds.of_context (known : (ses.transactions.context? c).isSome = true)
    (index : ses'.transactions.index.get? k = some c → ses.transactions.index.get? k = some c)
    (context : ∀ ctx, ses.transactions.context? c = some ctx →
      ∃ ctx', ses'.transactions.context? c = some ctx' ∧
        ctx'.slot.receiver = ctx.slot.receiver ∧
          (ctx.slot.message.isSome = true → ctx'.slot.message.isSome = true))
    (ended : ses.transactions.index.get? k = some c → ses.Awaited c → ses'.phase = .ended →
      ses.phase = .ended ∨ ses'.Told c) : ses.Heeds c k ses' := by
  obtain ⟨ctx, there⟩ := Option.isSome_iff_exists.1 known
  obtain ⟨ctx', there', receiver, message⟩ := context ctx there
  refine ⟨by rw [there']; rfl, fun registered => ?_⟩
  refine ⟨⟨index registered, ?_, ended (index registered)⟩, ?_⟩
  · rintro ⟨ctx₁, there₁, holds⟩
    cases Option.some.inj (there.symm.trans there₁)
    exact ⟨ctx', there', receiver.symm ▸ holds⟩
  · rintro ⟨ctx₁, there₁, held⟩
    cases Option.some.inj (there.symm.trans there₁)
    exact ⟨ctx', there', message held⟩

theorem Heeds.of_follows (known : (ses.transactions.context? c).isSome = true)
    (follows : ses.transactions.Follows ses'.transactions)
    (ended : ses.transactions.index.get? k = some c → ses.Awaited c → ses'.phase = .ended →
      ses.phase = .ended ∨ ses'.Told c) : ses.Heeds c k ses' := by
  refine .of_context known (fun registered => follows.index ▸ registered) (fun ctx there => ?_) ended
  obtain ⟨ctx', there', goes⟩ := follows.contexts c ctx there
  exact ⟨ctx', there', goes.receiver, Node.isSome_of_follows goes⟩

/-- A message is for whoever waits at the context of the transaction it names. -/
theorem told_notify {m : Message} (registered : ses.transactions.index.get? m.key = some c)
    (awaited : ses.Awaited c) : (ses.notify m).Told c := by
  obtain ⟨ctx, there, holds⟩ := awaited
  refine ⟨ctx.notify m, ?_, Transactions.isSome_notify holds m⟩
  have found : ses.transactions.find? m.channel m.tx = some c := registered
  simp only [notify, found]
  rw [Transactions.context?_modify, if_pos rfl, there]
  rfl

/-- A session that does not end changes a context, but not what is in its slot. -/
theorem Heeds.of_modify (known : (ses.transactions.context? c).isSome = true) (no : Nat)
    {f : Context → Context} (slot : ∀ ctx, (f ctx).slot = ctx.slot)
    (transactions : ses'.transactions = ses.transactions.modify no f)
    (phase : ses'.phase = ses.phase) : ses.Heeds c k ses' := by
  refine .of_context known (fun registered => ?_) (fun ctx there => ?_) fun _ _ ended =>
    .inl (phase ▸ ended)
  · rw [transactions] at registered
    exact registered
  · rw [transactions, Transactions.context?_modify, there]
    split
    · exact ⟨f ctx, rfl, by rw [slot], by rw [slot]; exact id⟩
    · exact ⟨ctx, rfl, rfl, id⟩

end Session

namespace Node

/-- A session minds whoever waits at a context that it knows. -/
structure Heeds (s : SessionId) (c : Nat) (k : String) (n n' : Node) : Prop where
  session : ∀ ses, n.session? s = some ses → (ses.transactions.context? c).isSome = true →
    ∃ ses', n'.session? s = some ses' ∧ ses.Heeds c k ses'

variable {P : Act → Prop} {s t : SessionId} {c : Nat} {k : String} {n n' n'' : Node}

namespace Heeds

theorem trans (h : n.Heeds s c k n') (h' : n'.Heeds s c k n'') : n.Heeds s c k n'' := by
  refine ⟨fun ses found known => ?_⟩
  obtain ⟨ses', found', heeds⟩ := h.session ses found known
  obtain ⟨ses'', found'', heeds'⟩ := h'.session ses' found' heeds.known
  exact ⟨ses'', found'', heeds.trans heeds'⟩

theorem outside (sessions : n'.sessions = n.sessions) : n.Heeds s c k n' := by
  refine ⟨fun ses found known => ⟨ses, ?_, .of_follows known (.refl _) fun _ _ => .inl⟩⟩
  unfold session? at found ⊢
  rwa [sessions]

theorem modify (n : Node) (t : SessionId) {f : Session → Session}
    (h : ∀ ses, n.session? t = some ses → (ses.transactions.context? c).isSome = true →
      ses.Heeds c k (f ses)) : n.Heeds s c k (n.modify t f) := by
  refine ⟨fun ses found known => ?_⟩
  by_cases same : t = s
  · subst same
    exact ⟨f ses, session?_modify found, h ses found known⟩
  · refine ⟨ses, ?_, .of_follows known (.refl _) fun _ _ => .inl⟩
    rw [session?_modify_if, if_neg same, found]

end Heeds

theorem frame_heeds : Frame (Heeds s c k) where
  refl n := .outside rfl
  trans := .trans
  outside sessions _ _ _ := .outside sessions
  aside h := .modify _ _ fun ses found known => by
    have aside := h ses found
    refine .of_context known (fun registered => aside.index ▸ registered) (fun ctx there => ?_)
      fun _ _ ended => .inl (aside.phase ended)
    refine ⟨ctx, ?_, rfl, id⟩
    unfold Transactions.context? at there ⊢
    rwa [aside.contexts]
  append {n ses} blank := by
    refine ⟨fun ses₁ found known =>
      ⟨ses₁, ?_, .of_follows known (.refl _) fun _ _ => .inl⟩⟩
    exact (List.getElem?_append_left (List.getElem?_eq_some_iff.1 found).1).trans found
  bury {n t ctx} unheard := .modify _ _ fun ses _ known => by
    have once : ctx.cursors.Once := by
      rw [unheard.cursors]
      exact CursorTable.once_empty
    exact .of_follows known (.bury _ once) fun _ _ => .inl
  enroll {n t ses ctx} found fresh unheard := .modify _ _ fun ses' found' known => by
    cases Option.some.inj (found.symm.trans found')
    refine .of_context known (fun registered => ?_) (fun ctx' there => ?_) fun _ _ => .inl
    · -- The number of the new context is the first that is not known.
      change (ses.transactions.index.insert ctx.key ses.transactions.contexts.length).get? k =
        some c at registered
      rw [KeyMap.get?_insert] at registered
      split at registered
      · cases registered
        obtain ⟨ctx', there⟩ := Option.isSome_iff_exists.1 known
        exact absurd (List.getElem?_eq_some_iff.1 there).1 (Nat.lt_irrefl _)
      · exact registered
    · exact ⟨ctx', ses.transactions.context?_of_enroll there, rfl, id⟩

theorem heeds_notify (n : Node) (t : SessionId) (m : Message) :
    n.Heeds s c k (n.modify t (·.notify m)) :=
  .modify n t fun ses _ known => .of_follows known (ses.follows_notify m) fun _ _ ended =>
    .inl ((ses.steady_notify m).phase ▸ ended)

/-- The end of a session is told to everybody who waits. -/
theorem heeds_farewell (n : Node) (t : SessionId) : n.Heeds s c k ((n.farewelled t).closed t) := by
  obtain ⟨directory, left⟩ := (n.farewelled t).deregister_eq t
  have told : n.Heeds s c k (((n.farewelled t).modify t fun ses =>
      { ses with isRegistered := false }).modify t fun ses =>
        { ses with phase := .ended }.stop) := by
    unfold farewelled
    rw [modify_modify, modify_modify]
    refine .modify n t fun ses _ known => ?_
    have notified := ses.follows_notify { kind := .error, payload := Session.farewell }
    refine .of_follows known (notified.trans (Session.follows_notifyAll _))
      fun registered ⟨ctx, there, holds⟩ _ => .inr ?_
    exact Transactions.Told.after notified (Session.told_notifyAll _) k c ctx registered there holds
  refine told.trans (.outside ?_)
  unfold closed
  rw [left]
  rfl

theorem handing_heeds : Handing (Heeds s c k) where
  toFrame := frame_heeds
  notify _ _ := heeds_notify ..
  farewell := heeds_farewell

theorem heeds_cursors (n : Node) (t : SessionId) (no : Nat) (u : CursorTable Scan) :
    n.Heeds s c k (n.modifyCursors t no u) :=
  .modify n t fun _ _ known =>
    .of_modify known no (f := fun ctx => { ctx with cursors := u }) (fun _ => rfl) rfl rfl

theorem heeds_work? (took : n.work? t = some n') : n.Heeds s c k n' := by
  refine frame_heeds.work? took fun job no ctx r n₁ n₂ _ _ _ turning => ?_
  cases turning with
  | opens max scan => exact (heeds_cursors ..).trans (.outside rfl)
  | advances | closes => exact heeds_cursors ..

theorem heeds_deleteContext (n : Node) (t : SessionId) (channel tx : String) :
    n.Heeds s c k (n.deleteContext t channel tx) := by
  refine .modify n t fun ses _ known => .of_context known (fun registered => ?_)
    (fun ctx there => ⟨ctx, there, rfl, id⟩) fun _ _ => .inl
  change (ses.transactions.index.erase (contextKey channel tx)).get? k = some c at registered
  rw [KeyMap.get?_erase] at registered
  split at registered
  · cases registered
  · exact registered

/-- An execution that waits no longer takes its own context out of the index, and no other. -/
theorem heeds_released (sound : n.Sound) {call : Call} {ctx : Context} (f : Context → Context)
    (known : n.context? call.session call.context = some ctx) :
    n.Heeds s c k (n.released call ctx f) := by
  obtain ⟨ses, found, there⟩ := context?_eq_some_iff.1 known
  have left : n.Heeds s c k (n.modify call.session fun ses =>
      { ses with
        transactions := (ses.transactions.modify call.context f).delete ctx.channel ctx.tx }) := by
    refine .modify n call.session fun ses' found' known' => ?_
    cases Option.some.inj (found.symm.trans found')
    have transactions := sound.transactions _ ses found
    have lookup := ses.transactions.context?_modify call.context c f
    refine ⟨?_, fun registered => ?_⟩
    · show ((ses.transactions.modify call.context f).context? c).isSome = true
      rw [lookup]
      split
      · rwa [Option.isSome_map]
      · exact known'
    · change (ses.transactions.index.erase ctx.key).get? k = some c at registered
      rw [KeyMap.get?_erase] at registered
      split at registered
      · cases registered
      · rename_i other
        obtain ⟨ctx', there', key⟩ := transactions.indexed k c registered
        have apart : call.context ≠ c := by
          rintro rfl
          cases Option.some.inj (there.symm.trans there')
          exact other key
        have same (ctx : Context) (before : ses.transactions.context? c = some ctx) :
            (ses.transactions.modify call.context f).context? c = some ctx := by
          rw [lookup, if_neg apart, before]
        exact ⟨⟨registered, fun ⟨ctx, before, holds⟩ => ⟨ctx, same ctx before, holds⟩,
          fun _ => .inl⟩, fun ⟨ctx, before, held⟩ => ⟨ctx, same ctx before, held⟩⟩
  exact left.trans (.outside rfl)

theorem heeds_deliver (n : Node) (origin : Origin) (result : Except SessionError Message) :
    n.Heeds s c k (n.deliver origin result) :=
  frame_heeds.deliver fun _ _ => .outside rfl

structure Keeps (s : SessionId) (c : Nat) (k : String) (n n' : Node) : Prop where
  session : ∀ ses, n.session? s = some ses → (ses.transactions.context? c).isSome = true →
    ∃ ses', n'.session? s = some ses' ∧ (ses'.transactions.context? c).isSome = true ∧
      (ses'.transactions.index.get? k = some c → ses.Keeps c k ses')

theorem Heeds.keeps (h : n.Heeds s c k n') : n.Keeps s c k n' := by
  refine ⟨fun ses found known => ?_⟩
  obtain ⟨ses', found', heeds⟩ := h.session ses found known
  exact ⟨ses', found', heeds.known, fun registered => (heeds.minds registered).toKeeps⟩

/-- Whoever takes the message out of a slot may wait on. -/
theorem keeps_polled (n : Node) (t : SessionId) (no : Nat) : n.Keeps s c k (n.polled t no) := by
  refine ⟨fun ses found known => ?_⟩
  by_cases same : t = s
  · subst same
    have lookup := ses.transactions.context?_modify no c fun ctx =>
      { ctx with slot := ctx.slot.receive.2 }
    refine ⟨_, session?_modify found, ?_, fun registered => ⟨registered, ?_, fun _ => .inl⟩⟩
    · refine (congrArg Option.isSome lookup).trans ?_
      split
      · rwa [Option.isSome_map]
      · exact known
    · rintro ⟨ctx, there, holds⟩
      rw [there] at lookup
      split at lookup
      · exact ⟨_, lookup, holds⟩
      · exact ⟨ctx, lookup, holds⟩
  · refine ⟨ses, ?_, known, fun registered => ⟨registered, id, fun _ => .inl⟩⟩
    unfold polled modifyContext
    rw [session?_modify_if, if_neg same, found]

/-- Whatever happens, whoever waits at a context does so as long as it is registered, and a session
does not end without a word to them. -/
theorem keeps_move (sound : n.Sound) (move : Move P n n') : n.Keeps s c k n' := by
  rcases handing_heeds.move move with kept | ⟨t, m, _, rfl⟩ | ⟨t, took⟩ | ⟨t, channel, tx, rfl⟩ |
    ⟨call, waits, finished | rfl⟩ | ⟨t, no, rfl⟩
  · exact kept.keeps
  · exact (heeds_notify ..).keeps
  · exact (heeds_work? took).keeps
  · exact (heeds_deleteContext ..).keeps
  · obtain ⟨ctx, m, known, _, rfl⟩ := finish?_cases finished
    exact ((heeds_released sound _ known).trans (heeds_deliver ..)).keeps
  · rcases n.expire_cases call with ⟨_, expired⟩ | ⟨ctx, known, expired⟩
    · have forgot : n.Heeds s c k (n.forget call) := .outside rfl
      rw [expired]
      exact forgot.keeps
    · rw [expired]
      exact ((heeds_released sound _ known).trans (heeds_deliver ..)).keeps
  · exact keeps_polled n t no

/-! ## Runs -/

def At (n : Node) (s : SessionId) (p : Phase) : Prop :=
  ∃ ses, n.session? s = some ses ∧ ses.phase = p

def Enters (n : Node) (s : SessionId) (c : Nat) (k : String) : Prop :=
  ∃ ses, n.session? s = some ses ∧ ses.transactions.index.get? k = some c

/-- Somebody waits at a context that is registered under a key. -/
def Waits (n : Node) (s : SessionId) (c : Nat) (k : String) : Prop :=
  ∃ ses, n.session? s = some ses ∧ ses.transactions.index.get? k = some c ∧ ses.Awaited c

/-- In the moves from one node to another, there was a message for whoever waits at a context. -/
def Notified (P : Act → Prop) (s : SessionId) (c : Nat) (n n' : Node) : Prop :=
  ∃ n₁, Moves P n n₁ ∧ Moves P n₁ n' ∧ n₁.HasMessage s c

theorem Notified.later (notified : Notified P s c n n') (moves : Moves P n' n'') :
    Notified P s c n n'' := by
  obtain ⟨n₁, before, after, message⟩ := notified
  exact ⟨n₁, before, after.trans moves, message⟩

theorem isSome_context?_iff : (n.context? s c).isSome = true ↔
    ∃ ses, n.session? s = some ses ∧ (ses.transactions.context? c).isSome = true := by
  simp only [Option.isSome_iff_exists, context?_eq_some_iff]
  constructor
  · rintro ⟨ctx, ses, found, there⟩
    exact ⟨ses, found, ctx, there⟩
  · rintro ⟨ses, found, ctx, there⟩
    exact ⟨ctx, ses, found, there⟩

theorem Keeps.known (h : n.Keeps s c k n') (known : (n.context? s c).isSome = true) :
    (n'.context? s c).isSome = true := by
  obtain ⟨ses, found, there⟩ := isSome_context?_iff.1 known
  obtain ⟨ses', found', there', _⟩ := h.session ses found there
  exact isSome_context?_iff.2 ⟨ses', found', there'⟩

theorem Keeps.enters (h : n.Keeps s c k n') (known : (n.context? s c).isSome = true)
    (enters : n'.Enters s c k) : n.Enters s c k := by
  obtain ⟨ses, found, there⟩ := isSome_context?_iff.1 known
  obtain ⟨ses', found', _, keeps⟩ := h.session ses found there
  obtain ⟨_, same, registered⟩ := enters
  cases Option.some.inj (found'.symm.trans same)
  exact ⟨ses, found, (keeps registered).registered⟩

theorem Waits.known (waits : n.Waits s c k) : (n.context? s c).isSome = true := by
  obtain ⟨ses, found, _, awaited⟩ := waits
  exact isSome_context?_iff.2 ⟨ses, found, awaited.known⟩

theorem Keeps.waits (h : n.Keeps s c k n') (waits : n.Waits s c k) (enters : n'.Enters s c k) :
    n'.Waits s c k ∧ (n'.At s .ended → n.At s .ended ∨ n'.HasMessage s c) := by
  obtain ⟨ses, found, registered, awaited⟩ := waits
  obtain ⟨ses', found', _, keeps⟩ := h.session ses found awaited.known
  obtain ⟨_, same, registered'⟩ := enters
  cases Option.some.inj (found'.symm.trans same)
  have keeps := keeps registered'
  refine ⟨⟨ses', found', registered', keeps.awaited awaited⟩, ?_⟩
  rintro ⟨_, same, ended⟩
  cases Option.some.inj (found'.symm.trans same)
  exact (keeps.ended awaited ended).imp (fun ended => ⟨ses, found, ended⟩) (hasMessage_iff found').2

theorem known_moves (sound : n.Sound) (moves : Moves P n n')
    (known : (n.context? s c).isSome = true) : (n'.context? s c).isSome = true := by
  induction moves with
  | refl => exact known
  | tail before move ih =>
    have keeps : Keeps s c "" _ _ := keeps_move (sound_moves sound before) move
    exact keeps.known ih

/-- A context that is registered was registered ever since it is there. -/
theorem enters_of_moves (sound : n.Sound) (moves : Moves P n n')
    (known : (n.context? s c).isSome = true) (enters : n'.Enters s c k) : n.Enters s c k := by
  induction moves with
  | refl => exact enters
  | @tail n₁ n₂ before move ih =>
    have keeps : n₁.Keeps s c k n₂ := keeps_move (sound_moves sound before) move
    exact ih (keeps.enters (known_moves sound before known) enters)

/-- Whoever waits does so as long as the context is registered, and is told when the session ends. -/
theorem waits_moves (sound : n.Sound) (moves : Moves P n n') (waits : n.Waits s c k)
    (enters : n'.Enters s c k) :
    n'.Waits s c k ∧ (n'.At s .ended → n.At s .ended ∨ Notified P s c n n') := by
  induction moves with
  | refl => exact ⟨waits, .inl⟩
  | @tail n₁ n₂ before move ih =>
    have keeps : n₁.Keeps s c k n₂ := keeps_move (sound_moves sound before) move
    obtain ⟨waits₁, told₁⟩ := ih (keeps.enters (known_moves sound before waits.known) enters)
    obtain ⟨waits₂, told₂⟩ := keeps.waits waits₁ enters
    refine ⟨waits₂, fun ended => ?_⟩
    rcases told₂ ended with ended | message
    · exact (told₁ ended).imp_right (·.later (.single move))
    · exact .inr ⟨n₂, before.tail move, .refl, message⟩

/-! ## Becoming ready -/

/-- A session whose contract has registered is shown that it is ready. -/
structure Readies (s : SessionId) (m : Message) (n n' : Node) : Prop where
  shows : Shows s m n n'
  kind : m.kind = .ready
  established : n.At s .established

/-- Whoever waits for the transaction that the message names is told. -/
theorem Readies.hasMessage {m : Message} (h : Readies s m n n') (waits : n.Waits s c m.key)
    (enters : n'.Enters s c m.key) : n'.HasMessage s c := by
  have spoken : m.kind ≠ .keepalive := h.kind ▸ MessageKind.noConfusion
  obtain ⟨f, transactions, phase, heeds⟩ :=
    (handing_heeds (s := s) (c := c) (k := m.key)).shows h.shows spoken
  obtain ⟨ses, found, established⟩ := h.established
  obtain ⟨_, same, registered, awaited⟩ := waits
  cases Option.some.inj (found.symm.trans same)
  have found₁ : (n.modify s f).session? s = some (f ses) := session?_modify found
  have established₁ : (f ses).phase = .established := (phase ses).trans established
  have found₂ : ((n.modify s f).handle s m).session? s =
      some { (f ses).notify m with phase := .ready } := by
    rw [handle_of_readies found₁ established₁ h.kind]
    exact session?_modify (session?_modify found₁)
  have registered₁ : (f ses).transactions.index.get? m.key = some c := by
    rw [transactions]
    exact registered
  have awaited₁ : (f ses).Awaited c := by
    unfold Session.Awaited
    rw [transactions]
    exact awaited
  have told : ((f ses).notify m).Told c := Session.told_notify registered₁ awaited₁
  obtain ⟨ses', found', minded⟩ := heeds.session _ found₂ told.known
  obtain ⟨_, same, registered'⟩ := enters
  cases Option.some.inj (found'.symm.trans same)
  exact (hasMessage_iff found').2 ((minded.minds registered').told told)

end Node

namespace Roll

variable {r r' : Roll} {s t : SessionId} {m : Message}

theorem phase_withdraw (r : Roll) (t s : SessionId) :
    ((r.withdraw t).standing s).phase = (r.standing s).phase := by
  by_cases here : t = s
  · subst here
    rw [standing_withdraw]
  · rw [standing_withdraw_other _ here]

theorem ready_of_finish (ready : ((r.finish t).standing s).phase = .ready) :
    (r.standing s).phase = .ready := by
  by_cases here : t = s
  · subst here
    rw [standing_finish] at ready
    cases ready
  · rwa [standing_finish_other _ here] at ready

/-- A session that was shown a message is ready if it was, or if its contract had registered and the
message says so. -/
theorem ready_of_shown (shown : r.Shown t m r') (ready : (r'.standing s).phase = .ready) :
    (r.standing s).phase = .ready ∨
      t = s ∧ (r.standing s).phase = .established ∧ m.kind = .ready := by
  by_cases here : t = s
  · subst here
    cases shown with
    | ignored => exact .inl ready
    | enlisted =>
      unfold enlist at ready
      rw [standing_put_self] at ready
      cases ready
    | untold created =>
      unfold enlist at ready
      rw [phase_withdraw, standing_put_self] at ready
      cases ready
    | readied established raised => exact .inr ⟨rfl, established, Node.kind_of_readies raised⟩
  · rw [standing_shown_other shown here] at ready
    exact .inl ready

end Roll

namespace Node

variable {P : Act → Prop} {s t : SessionId} {c : Nat} {k : String} {n n' n'' : Node}

theorem at_iff_roll {p : Phase} (past : p ≠ .created) :
    n.At s p ↔ (n.roll.standing s).phase = p := by
  constructor
  · rintro ⟨ses, found, phase⟩
    rw [standing_of_found found]
    exact phase
  · intro phase
    cases found : n.session? s with
    | none =>
      rw [standing_of_missing found] at phase
      exact absurd phase.symm past
    | some ses =>
      rw [standing_of_found found] at phase
      exact ⟨ses, found, phase⟩

/-- What is done to the directory by hand changes no session. -/
theorem sessions_or_move (move : Move P n n') :
    n'.sessions = n.sessions ∨ Move (·.isByHand = false) n n' := by
  cases move with
  | act a given once =>
    cases byHand : a.isByHand with
    | false => exact .inr (.act a byHand once)
    | true =>
      refine .inl ?_
      cases a with
      | registerKey key t =>
        obtain ⟨directory, given⟩ := n.registerKey_eq key t
        show (n.registerKey key t).2.sessions = n.sessions
        rw [given]
      | deregisterKey key => rfl
      | _ => cases byHand
  | finish waits finished => exact .inr (.finish waits finished)
  | command took => exact .inr (.command took)
  | work took => exact .inr (.work took)
  | dial found spawned => exact .inr (.dial found spawned)
  | resume took => exact .inr (.resume took)
  | receive took => exact .inr (.receive took)
  | expire waits => exact .inr (.expire waits)
  | tick clock => exact .inl rfl

/-- A session becomes ready by a message that says so. -/
theorem readied_of_move (move : Move P n n') (ready : n'.At s .ready) :
    n.At s .ready ∨ ∃ m, Readies s m n n' := by
  rcases sessions_or_move move with same | move
  · refine .inl ?_
    unfold At session? at ready ⊢
    rwa [same] at ready
  · have after := (at_iff_roll Phase.noConfusion).1 ready
    have stays (before : (n.roll.standing s).phase = .ready) : n.At s .ready :=
      (at_iff_roll Phase.noConfusion).2 before
    rcases roll_move (fun _ bySession => bySession) move with same | ⟨t, m, shows⟩ | ⟨t, rfl⟩ |
      ⟨t, same⟩
    · exact .inl (stays (same ▸ after))
    · obtain ⟨r, shown, same⟩ := roll_shows shows
      have shownReady : (r.standing s).phase = .ready := by
        rcases same with same | same
        · rwa [same] at after
        · rw [same] at after
          exact Roll.ready_of_finish after
      rcases Roll.ready_of_shown shown shownReady with before | ⟨rfl, before, kind⟩
      · exact .inl (stays before)
      · exact .inr ⟨m, shows, kind, (at_iff_roll Phase.noConfusion).2 before⟩
    · have same : (n.act (.deregister t)).roll = n.roll.withdraw t := roll_deregister n t
      rw [same, Roll.phase_withdraw] at after
      exact .inl (stays after)
    · rw [same] at after
      exact .inl (stays (Roll.ready_of_finish after))

theorem readied_of_moves (moves : Moves P n n') (ready : n'.At s .ready) :
    n.At s .ready ∨ ∃ n₁ n₂ m, Moves P n n₁ ∧ Move P n₁ n₂ ∧ Moves P n₂ n' ∧
      Readies s m n₁ n₂ := by
  induction moves with
  | refl => exact .inl ready
  | tail before move ih =>
    rcases readied_of_move move ready with ready | ⟨m, readies⟩
    · rcases ih ready with ready | ⟨n₁, n₂, m, first, shown, rest, readies⟩
      · exact .inl ready
      · exact .inr ⟨n₁, n₂, m, first, shown, rest.tail move, readies⟩
    · exact .inr ⟨_, _, m, before, move, .refl, readies⟩

/-- Whoever waits for the transaction by which a session becomes ready is told, unless the context is
deleted. -/
theorem notified_of_readies {n₁ n₂ : Node} {m : Message} (sound : n.Sound) (waits : n.Waits s c k)
    (before : Moves P n n₁) (move : Move P n₁ n₂) (after : Moves P n₂ n')
    (readies : Readies s m n₁ n₂) (enters : n'.Enters s c k) (same : m.key = k) :
    Notified P s c n n' := by
  have reached : Moves P n n₂ := before.tail move
  have known := known_moves sound reached waits.known
  -- the context was registered in between, since it is in the end
  have enters₂ := enters_of_moves (sound_moves sound reached) after known enters
  have enters₁ := enters_of_moves (sound_moves sound before) (.single move)
    (known_moves sound before waits.known) enters₂
  have waits₁ := (waits_moves sound before waits enters₁).1
  subst same
  exact ⟨n₂, reached, after, readies.hasMessage waits₁ enters₂⟩

/-! ## Beginning a handshake -/

section Ready

variable {channel tx : String} {signedProposal : Option SignedProposal} {proposal : Option Proposal}

/-- Whoever begins a handshake waits at its context, while the session stays where it was. -/
theorem waits_of_ready (called : n.ready s channel tx signedProposal proposal = (.ok c, n')) :
    n'.Waits s c (contextKey channel tx) ∧ (∀ p, n'.At s p → n.At s p) ∧
      ∃ ses, n.session? s = some ses ∧ ses.outbound ≠ .stopped := by
  have blank := n.blank_newContext channel tx signedProposal proposal
  have readied := readied_ready n s channel tx signedProposal proposal
  rw [called] at readied
  generalize given : n.newContext channel tx signedProposal proposal = ctx at blank readied
  have key : ctx.key = contextKey channel tx := given ▸ rfl
  cases readied with
  | @waits ses m found fresh on =>
    have found' : (n.shaking s ctx m).session? s = some _ := session?_modify found
    refine ⟨⟨_, found', ?_, _, ses.transactions.context?_enroll_self ctx, ?_⟩, ?_, ses, found, on⟩
    · rw [← key]
      exact KeyMap.get?_insert_self ..
    · rw [blank.slot]
      exact Receiver.noConfusion
    · rintro p ⟨ses', same, phase⟩
      cases Option.some.inj (found'.symm.trans same)
      exact ⟨ses, found, phase⟩

/-- Where a handshake begins at rest with a session whose contract has registered, the next thing that
happens is that the session becomes ready by it. -/
theorem readies_of_ready (sound : n.Sound) (rest : n.AtRest) {ses : Session}
    (found : n.session? s = some ses) (established : ses.phase = .established)
    (running : ses.outbound = .running)
    (called : n.ready s channel tx signedProposal proposal = (.ok c, n')) :
    ∃ n'' m, n'.turn? = some n'' ∧ Readies s m n' n'' ∧ m.key = contextKey channel tx := by
  have readied := readied_ready n s channel tx signedProposal proposal
  rw [called] at readied
  generalize given : n.newContext channel tx signedProposal proposal = ctx at readied
  have own : ctx.key = contextKey channel tx := given ▸ rfl
  cases readied with
  | @waits _ m there fresh on kind key =>
    cases Option.some.inj (found.symm.trans there)
    have found' : (n.shaking s ctx m).session? s = some _ := session?_modify found
    have turn : (n.shaking s ctx m).turn? = (n.shaking s ctx m).sessionTurn? s := by
      refine turn?_of_kept _ rest found fun call waits same => ?_
      obtain ⟨ctx', known, _⟩ := sound.waits call waits
      obtain ⟨_, there', known⟩ := context?_eq_some_iff.1 known
      rw [same] at there'
      cases Option.some.inj (found.symm.trans there')
      exact (ses.transactions.context?_of_enroll known).trans known.symm
    have still := (atRest_iff.1 rest).2 s ses found
    have empty : ses.commands = [] := still.commands running
    cases took : (n.shaking s ctx m).command? s with
    | none =>
      have nothing := (command?_eq_none_iff found').1 took running
      exact absurd nothing (by simp)
    | some n'' =>
      refine ⟨n'', m, turn.trans ?_, ⟨?_, kind, _, found', established⟩, key.trans own⟩
      · unfold sessionTurn?
        rw [(dial?_eq_none_iff found').2 still.dials, took]
        rfl
      · exact .triggered found' running (congrArg (· ++ [_]) empty) rfl took

end Ready

/-! ## Who is told -/

/-- Whoever begins a handshake waits at its context for the message that completes it. As long as the
context is registered, there is a message for them:

* when the session has ended, unless it had before, and its outbound loop was about to stop;
* when the session is ready, unless it was before, if the message that made it so is for their
  transaction;
* as soon as the node is at rest again, if it was before and the contract of the session had
  registered. -/
theorem notified_of_ready {channels historyless system : List String} {drill : Drill}
    {n₁ n₂ n : Node} {channel tx : String} {signedProposal : Option SignedProposal}
    {proposal : Option Proposal}
    (run : Moves P (withChannels channels historyless system drill) n₁)
    (called : n₁.ready s channel tx signedProposal proposal = (.ok c, n₂)) (later : Moves P n₂ n)
    (registered : ∃ ses, n.session? s = some ses ∧ ses.transactions.find? channel tx = some c) :
    (n.At s .ended → Notified P s c n₂ n ∨
      n₁.At s .ended ∧ ((∀ a, P a → a.isByHand = false) → ¬ n₁.AtRest)) ∧
    (n.At s .ready → n₁.At s .ready ∨ ∃ n₃ n₄ m, Moves P n₂ n₃ ∧ Move P n₃ n₄ ∧ Moves P n₄ n ∧
      Readies s m n₃ n₄ ∧ (m.key = contextKey channel tx → Notified P s c n₂ n)) ∧
    (∀ ses, n₁.session? s = some ses → ses.phase = .established → ses.outbound = .running →
      n₁.AtRest → Moves P n₂.settle n → Notified P s c n₂ n) := by
  have first := sound_moves (sound_withChannels ..) run
  have sound : n₂.Sound := by
    have kept := sound_ready first s channel tx signedProposal proposal
    rwa [called] at kept
  have enters : n.Enters s c (contextKey channel tx) := registered
  obtain ⟨waits, phases, ses, found, on⟩ := waits_of_ready called
  refine ⟨fun ended => ?_, fun ready => ?_, fun ses' found' established running rest on => ?_⟩
  · rcases (waits_moves sound later waits enters).2 ended with ended | notified
    · refine .inr ⟨phases _ ended, fun _ rest => ?_⟩
      obtain ⟨ses', found', ended⟩ := phases _ ended
      exact live_of_on (closing_of_moves run) rest found on ses' found' ended
    · exact .inl notified
  · rcases readied_of_moves later ready with ready | ⟨n₃, n₄, m, before, move, after, readies⟩
    · exact .inl (phases _ ready)
    · refine .inr ⟨n₃, n₄, m, before, move, after, readies, fun same => ?_⟩
      exact notified_of_readies sound waits before move after readies enters same
  · obtain ⟨n₃, m, turn, readies, same⟩ := readies_of_ready first rest found' established running
      called
    have settled : Moves P n₃ n₂.settle := by
      rw [settle_of_turn turn]
      exact moves_turns ..
    exact notified_of_readies sound waits .refl (move_turn? turn) (settled.trans on) readies enters same

/-- A contract registers while somebody waits to be told of that, so that its session is not ready. -/
def registeredRun : List Act :=
  [.openSession {} {} .directory, .start 0, .awaitReady 0 1,
    .contractSends 0 { kind := .register, payload := ContractId.codec.encode { name := "cc" } }]

/-- A handshake with a session whose contract has registered. -/
theorem notified_of_ready_registeredRun :
    let n₁ := (withChannels ["ch"] [] [] {}).steps registeredRun
    let n₂ := (n₁.ready 0 "ch" "t1" none none).2
    (n₁.ready 0 "ch" "t1" none none).1 = .ok 0 ∧ n₁.At 0 .established ∧ n₂.settle.At 0 .ready ∧
      Notified (fun _ => True) 0 0 n₂ n₂.settle := by
  intro n₁ n₂
  have before : (n₁.session? 0).any (fun ses => ses.phase == .established &&
      ses.outbound == .running) = true := by decide +kernel
  have after : (n₂.settle.session? 0).any (fun ses => ses.phase == .ready &&
      ses.transactions.find? "ch" "t1" == some 0) = true := by decide +kernel
  have called : (n₁.ready 0 "ch" "t1" none none).1 = .ok 0 := by decide +kernel
  obtain ⟨ses, found, facts⟩ := (Option.any_eq_true ..).1 before
  obtain ⟨ses', found', facts'⟩ := (Option.any_eq_true ..).1 after
  simp only [Bool.and_eq_true, beq_iff_eq] at facts facts'
  obtain ⟨established, running⟩ := facts
  obtain ⟨ready, registered⟩ := facts'
  have run : Moves (fun _ => True) (withChannels ["ch"] [] [] {}) n₁ :=
    moves_steps fun _ _ => trivial
  have rest : n₁.AtRest := atRest_steps (atRest_withChannels ..) registeredRun
  have settled : Moves (fun _ => True) n₂ n₂.settle := moves_turns ..
  obtain ⟨_, _, notified⟩ := notified_of_ready run (Prod.ext called rfl) settled
    ⟨ses', found', registered⟩
  exact ⟨called, ⟨ses, found, established⟩, ⟨ses', found', ready⟩,
    notified ses found established running rest .refl⟩

/-- A handshake that begins before the contract registers is not completed for whoever waits: the
session drops the message that is queued for it, and becomes ready by one for nobody. -/
theorem unnotified_of_created :
    let n₁ := (withChannels ["ch"] [] [] {}).steps [.openSession {} {} .directory, .start 0]
    let n₂ := n₁.step (.ready 0 "ch" "t1" none none)
    let n := n₂.step (.contractSends 0
      { kind := .register, payload := ContractId.codec.encode { name := "cc" } })
    (n₁.ready 0 "ch" "t1" none none).1 = .ok 0 ∧ n.turn?.isNone = true ∧
      ((n.session? 0).map fun ses => (ses.phase, ses.transactions.find? "ch" "t1")) =
        some (.ready, some 0) ∧
      (n₂.context? 0 0).map (·.slot) = some ⟨.held, none⟩ ∧
        (n.context? 0 0).map (·.slot) = some ⟨.held, none⟩ := by
  decide +kernel

end Node

end ContractNode
