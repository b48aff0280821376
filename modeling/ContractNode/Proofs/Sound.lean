import ContractNode.Node.Run
import ContractNode.Proofs.Effect

/-!
# Sound nodes

* `Node.Sound` : registered contexts are found under their own keys, cursors are closed once, and
  each execution that waits holds the slot of a context of its own;
* `sound_effect`, `sound_path` : whatever a node does by itself leaves it sound;
* `sound_act`, `sound_steps` : so does whatever comes from outside.
-/

namespace ContractNode

/-! ## Transactions -/

namespace Transactions

/-- Registered contexts are found under their own keys, and cursors are closed once. -/
structure Sound (t : Transactions) : Prop where
  indexed : ∀ k c, t.index.get? k = some c → ∃ ctx, t.context? c = some ctx ∧ ctx.key = k
  clean : t.Clean

theorem mem_registered {t : Transactions} {k : String} {c : Nat} (h : t.index.get? k = some c) :
    c ∈ t.registered := List.mem_map.2 ⟨(k, c), KeyMap.mem_entries_iff.2 h, rfl⟩

theorem mem_registered_iff {t : Transactions} {c : Nat} :
    c ∈ t.registered ↔ ∃ k, t.index.get? k = some c := by
  refine ⟨fun mem => ?_, fun ⟨k, registered⟩ => mem_registered registered⟩
  obtain ⟨⟨k, c'⟩, entry, rfl⟩ := List.mem_map.1 mem
  exact ⟨k, KeyMap.mem_entries_iff.1 entry⟩

theorem context?_enroll_self (t : Transactions) (c : Context) :
    (t.enroll c).context? t.contexts.length = some { c with slot := c.slot.take.2 } :=
  List.getElem?_concat_length

theorem context?_of_enroll (t : Transactions) {c : Nat} {ctx ctx' : Context}
    (h : t.context? c = some ctx) : (t.enroll ctx').context? c = some ctx :=
  t.context?_of_bury h

theorem context?_enroll (t : Transactions) {c : Nat} {ctx ctx' : Context}
    (h : (t.enroll ctx).context? c = some ctx') :
    t.context? c = some ctx' ∨
      c = t.contexts.length ∧ ctx' = { ctx with slot := ctx.slot.take.2 } :=
  t.context?_bury h

namespace Sound

variable {t t' : Transactions}

theorem empty : ({} : Transactions).Sound where
  indexed k c h := by cases h
  clean c ctx h := by cases h

theorem follows (h : t.Sound) (f : t.Follows t') : t'.Sound where
  indexed k c found := by
    rw [f.index] at found
    obtain ⟨ctx, known, same⟩ := h.indexed k c found
    obtain ⟨ctx', known', goes⟩ := f.contexts c ctx known
    exact ⟨ctx', known', (Context.key_of_badge goes.badge).trans same⟩
  clean := f.clean h.clean

theorem enroll (h : t.Sound) {c : Context} (blank : c.Blank) : (t.enroll c).Sound where
  indexed k no found := by
    rw [show (t.enroll c).index = t.index.insert c.key t.contexts.length from rfl,
      KeyMap.get?_insert] at found
    split at found
    · rename_i same
      cases found
      exact ⟨_, t.context?_enroll_self c, same⟩
    · obtain ⟨ctx, known, same⟩ := h.indexed k no found
      exact ⟨ctx, t.context?_of_enroll known, same⟩
  clean no ctx known := by
    rcases t.context?_enroll known with known | ⟨_, rfl⟩
    · exact h.clean no ctx known
    · show c.cursors.Once
      rw [blank.cursors]
      exact CursorTable.once_empty

theorem delete (h : t.Sound) (channel tx : String) : (t.delete channel tx).Sound where
  indexed k c found := by
    rw [show (t.delete channel tx).index = t.index.erase (contextKey channel tx) from rfl,
      KeyMap.get?_erase] at found
    split at found
    · cases found
    · exact h.indexed k c found
  clean := h.clean

theorem modify (h : t.Sound) (c : Nat) {f : Context → Context}
    (badge : ∀ ctx, (f ctx).badge = ctx.badge)
    (once : ∀ ctx, ctx.cursors.Once → (f ctx).cursors.Once) : (t.modify c f).Sound where
  indexed k no found := by
    obtain ⟨ctx, known, same⟩ := h.indexed k no found
    rw [context?_modify, known]
    split
    · exact ⟨f ctx, rfl, (Context.key_of_badge (badge ctx)).trans same⟩
    · exact ⟨ctx, rfl, same⟩
  clean no ctx known := by
    rw [context?_modify] at known
    split at known
    · obtain ⟨ctx', known', rfl⟩ := Option.map_eq_some_iff.1 known
      exact once ctx' (h.clean no ctx' known')
    · exact h.clean no ctx known

end Sound

end Transactions

namespace Node

/-! ## Nodes -/

/-- Two executions do not wait on one context. -/
def Apart (a b : Call) : Prop := ¬ (a.session = b.session ∧ a.context = b.context)

/-- Registered contexts are found under their own keys, cursors are closed once, and each execution
that waits holds the slot of a context of its own. -/
structure Sound (n : Node) : Prop where
  transactions : ∀ s ses, n.session? s = some ses → ses.transactions.Sound
  waits : ∀ call ∈ n.calls,
    ∃ ctx, n.context? call.session call.context = some ctx ∧ ctx.slot.receiver = .held
  apart : n.calls.Pairwise Apart

theorem context?_eq_some_iff {n : Node} {s : SessionId} {c : Nat} {ctx : Context} :
    n.context? s c = some ctx ↔
      ∃ ses, n.session? s = some ses ∧ ses.transactions.context? c = some ctx :=
  Option.bind_eq_some_iff

/-- Changes of sessions that keep every context with a held slot, and keep transactions sound. -/
theorem Sound.modify {n : Node} (h : n.Sound) (s : SessionId) {f : Session → Session}
    (sound : ∀ ses, n.session? s = some ses → ses.transactions.Sound → (f ses).transactions.Sound)
    (held : ∀ ses c ctx, n.session? s = some ses → ses.transactions.context? c = some ctx →
      ctx.slot.receiver = .held →
        ∃ ctx', (f ses).transactions.context? c = some ctx' ∧ ctx'.slot.receiver = .held) :
    (n.modify s f).Sound where
  transactions t ses found := by
    rcases session?_modify_cases found with ⟨rfl, ses', found', rfl⟩ | ⟨_, found⟩
    · exact sound ses' found' (h.transactions s ses' found')
    · exact h.transactions t ses found
  waits call waits := by
    obtain ⟨ctx, known, holds⟩ := h.waits call waits
    obtain ⟨ses, found, known⟩ := context?_eq_some_iff.1 known
    by_cases same : s = call.session
    · subst same
      obtain ⟨ctx', known', holds'⟩ := held ses call.context ctx found known holds
      exact ⟨ctx', context?_eq_some_iff.2 ⟨f ses, session?_modify found, known'⟩, holds'⟩
    · refine ⟨ctx, context?_eq_some_iff.2 ⟨ses, ?_, known⟩, holds⟩
      rw [session?_modify_if, if_neg same, found]
  apart := h.apart

theorem sound_touch {n n' : Node} (h : n.Sound) (touches : Touches n n') : n'.Sound where
  transactions s ses found := by
    have follows := touches.session found
    cases before : n.session? s with
    | none =>
      rw [before] at follows
      exact Transactions.Sound.empty.follows follows
    | some ses₀ =>
      rw [before] at follows
      exact (h.transactions s ses₀ before).follows follows
  waits call waits := by
    rw [touches.calls] at waits
    obtain ⟨ctx, known, held⟩ := h.waits call waits
    obtain ⟨ses, found, known⟩ := context?_eq_some_iff.1 known
    obtain ⟨ses', found', follows⟩ := touches.sessions call.session ses found
    obtain ⟨ctx', known', goes⟩ := follows.contexts call.context ctx known
    exact ⟨ctx', context?_eq_some_iff.2 ⟨ses', found', known'⟩, goes.receiver.trans held⟩
  apart := touches.calls ▸ h.apart

theorem Sound.enroll {n : Node} (h : n.Sound) (s : SessionId) {f : Session → Session} {c : Context}
    (blank : c.Blank)
    (enrolls : ∀ ses, n.session? s = some ses →
      (f ses).transactions = ses.transactions.enroll c) : (n.modify s f).Sound := by
  refine h.modify s (fun ses found sound => ?_) fun ses no ctx found known held => ?_
  · rw [enrolls ses found]
    exact sound.enroll blank
  · rw [enrolls ses found]
    exact ⟨ctx, ses.transactions.context?_of_enroll known, held⟩

theorem sound_began {n : Node} {s : SessionId} {ses : Session} {c : Context} (h : n.Sound)
    (m : Message) (origin : Origin) (found : n.session? s = some ses) (blank : c.Blank) :
    (n.began s ses c m origin).Sound := by
  have enrolled : (n.modify s fun ses =>
      { ses with
        transactions := ses.transactions.enroll c
        commands := ses.commands ++ [.next { message := m, forward := true }] }).Sound :=
    h.enroll s blank fun _ _ => rfl
  refine ⟨enrolled.transactions, fun call waits => ?_, ?_⟩
  · rcases List.mem_append.1 waits with waits | new
    · exact enrolled.waits call waits
    · cases List.mem_singleton.1 new
      refine ⟨_, context?_eq_some_iff.2
        ⟨_, session?_modify found, ses.transactions.context?_enroll_self c⟩, ?_⟩
      rw [blank.slot]
      rfl
  · -- The number of the new context is the first that no execution has.
    refine List.pairwise_append.2 ⟨h.apart, List.pairwise_singleton .., fun a mem b new => ?_⟩
    cases List.mem_singleton.1 new
    rintro ⟨same, number⟩
    obtain ⟨ctx, known, _⟩ := h.waits a mem
    obtain ⟨ses', found', known⟩ := context?_eq_some_iff.1 known
    rw [same] at found'
    cases Option.some.inj (found.symm.trans found')
    rw [number] at known
    have bound := (List.getElem?_eq_some_iff.1 known).1
    exact Nat.lt_irrefl _ bound

theorem mem_forget {n : Node} {call call' : Call} :
    call' ∈ (n.forget call).calls ↔ call' ∈ n.calls ∧ Apart call' call := by
  simp only [forget, List.mem_filter, Apart, Bool.or_eq_true, bne_iff_ne]
  exact and_congr_right fun _ => Decidable.not_and_iff_not_or_not.symm

theorem sound_forget {n : Node} (h : n.Sound) (call : Call) : (n.forget call).Sound where
  transactions := h.transactions
  waits call' waits := h.waits call' (mem_forget.1 waits).1
  apart := h.apart.filter _

theorem sound_released {n : Node} (h : n.Sound) (call : Call) (ctx : Context)
    {f : Context → Context} (badge : ∀ ctx, (f ctx).badge = ctx.badge)
    (once : ∀ ctx, ctx.cursors.Once → (f ctx).cursors.Once) :
    (n.released call ctx f).Sound where
  transactions s ses found := by
    change (n.modify call.session _).session? s = some ses at found
    rcases session?_modify_cases found with ⟨rfl, ses', found', rfl⟩ | ⟨_, found⟩
    · exact ((h.transactions _ ses' found').modify call.context badge once).delete ..
    · exact h.transactions s ses found
  waits call' waits := by
    obtain ⟨mem, apart⟩ := mem_forget.1 waits
    obtain ⟨ctx', known, held⟩ := h.waits call' mem
    obtain ⟨ses, found, known⟩ := context?_eq_some_iff.1 known
    refine ⟨ctx', context?_eq_some_iff.2 ?_, held⟩
    by_cases same : call.session = call'.session
    · have other : call.context ≠ call'.context := fun e => apart ⟨same.symm, e.symm⟩
      have kept : (ses.transactions.modify call.context f).context? call'.context = some ctx' := by
        rw [Transactions.context?_modify, if_neg other, known]
      rw [← same] at found ⊢
      exact ⟨_, session?_modify found, kept⟩
    · refine ⟨ses, ?_, known⟩
      show (n.modify call.session _).session? call'.session = _
      rw [session?_modify_if, if_neg same, found]
  apart := h.apart.filter _

/-! ## What a node does by itself -/

theorem sound_effect {n n' : Node} (h : n.Sound) (effect : Effect n n') : n'.Sound := by
  cases effect with
  | touch touches => exact sound_touch h touches
  | @begin s t ses ses' ctx c' c m m' spec rights found _ _ _ _ made found' _ _ =>
    have claimed : (n.modify s (·.claim m.key)).Sound :=
      sound_touch h (.modify s fun ses _ => .marked ses.transactions _)
    exact sound_began claimed m' _ found' (blank_of_called made)
  | release waits known badge once touches =>
    exact sound_touch (sound_released h _ _ badge once) touches
  | forget waits unknown => exact sound_forget h _

theorem sound_path {n n' : Node} (h : n.Sound) (path : Path n n') : n'.Sound := by
  induction path with
  | refl => exact h
  | tail _ deed ih => exact sound_effect ih (effect_of_deed deed)

/-! ## What comes from outside -/

end Node

/-- Whether an act has nothing to do with contexts and executions, or no more than to hand messages
over. -/
def Act.isQuiet : Act → Bool
  | .handle .. | .ready .. | .poll .. | .deleteContext .. | .execute .. | .run .. | .pass .. => false
  | _ => true

namespace Node

theorem touches_openSession (n : Node) (config : SessionConfig) (access : AccessPolicy)
    (launcher : Launcher) : Touches n (n.openSession config access launcher).2 := by
  refine ⟨rfl, fun s ses found => ?_, fun s ses none found => ?_⟩
  · exact ⟨ses, session?_of_openSession config access launcher found, .refl _⟩
  · rcases session?_openSession found with there | ⟨_, rfl⟩
    · rw [none] at there
      cases there
    · exact .refl _

theorem touches_start (n : Node) (s : SessionId) : Touches n (n.start s).2 := by
  rcases n.start_cases s with same | ⟨ses, _, _, started⟩
  · rw [same]
    exact .refl n
  · rw [started]
    exact .apart s fun _ => rfl

theorem touches_act (n : Node) {a : Act} (quiet : a.isQuiet = true) : Touches n (n.act a) := by
  cases talker : a.talker? with
  | some s => exact touches_talks (n.talks_act talker)
  | none =>
    cases a with
    | handle | ready | poll | deleteContext | execute | run | pass => cases quiet
    | openSession config access launcher => exact touches_openSession n config access launcher
    | start s => exact touches_start n s
    | notify s m => exact .modify s fun ses _ => ses.follows_notify m
    | deregister s => exact touches_deregister n s
    | registerKey key s =>
      obtain ⟨directory, given⟩ := n.registerKey_eq key s
      show Touches n (n.registerKey key s).2
      rw [given]
      exact .outside rfl rfl
    | seed channel tx space collection entries =>
      obtain ⟨ledger, given⟩ := n.seed_eq channel tx space collection entries
      show Touches n (n.seed channel tx space collection entries).2
      rw [given]
      exact .outside rfl rfl
    | deregisterKey | createChannel | gate | ungate => exact .outside rfl rfl
    | _ => cases talker

theorem sound_abandoned {n : Node} (h : n.Sound) (s : SessionId) {c : Context} (blank : c.Blank) :
    (n.abandoned s c).Sound := by
  refine sound_touch h (.modify s fun ses _ => .bury _ (CursorTable.once_closeAll ?_))
  rw [blank.cursors]
  exact CursorTable.once_empty

/-- What is answered to a caller from outside makes no difference. -/
theorem sound_answered {n : Node} (h : n.Sound)
    (results : List (String × Except SessionError Message)) : { n with results }.Sound :=
  sound_touch h (.outside rfl rfl)

theorem sound_started {n n' : Node} {s : SessionId} {label : String}
    {kind : MessageKind} {P : Context → Prop} (h : n.Sound) (blank : ∀ c, P c → c.Blank)
    (started : Started n s label kind P n') : n'.Sound := by
  cases started with
  | refused e => exact sound_answered h _
  | stopped e found fresh off given =>
    exact sound_answered (sound_abandoned h s (blank _ given)) _
  | waits m found fresh on given => exact sound_began h m _ found (blank _ given)

theorem sound_ready {n : Node} (h : n.Sound) (s : SessionId) (channel tx : String)
    (signedProposal : Option SignedProposal) (proposal : Option Proposal) :
    (n.ready s channel tx signedProposal proposal).2.Sound := by
  have blank := n.blank_newContext channel tx signedProposal proposal
  have readied := readied_ready n s channel tx signedProposal proposal
  generalize n.ready s channel tx signedProposal proposal = r at readied
  obtain ⟨outcome, n'⟩ := r
  cases readied with
  | refused => exact h
  | stopped found fresh off =>
    exact sound_touch h (.modify s fun ses _ => .bury _ CursorTable.once_empty)
  | waits m found fresh on => exact h.enroll s blank fun _ _ => rfl

theorem sound_polled {n : Node} (h : n.Sound) (s : SessionId) (c : Nat) : (n.polled s c).Sound := by
  refine h.modify s (fun ses _ sound => sound.modify c (fun _ => rfl) fun _ once => once)
    fun ses no ctx _ known held => ?_
  rw [Transactions.context?_modify, known]
  split
  · exact ⟨_, rfl, held⟩
  · exact ⟨ctx, rfl, held⟩

theorem sound_poll {n : Node} (h : n.Sound) (s : SessionId) (c : Nat) : (n.poll s c).2.Sound := by
  rcases n.poll_cases s c with ⟨_, polls⟩ | ⟨ctx, _, polls⟩
  · rw [polls]
    exact h
  · rw [polls]
    exact sound_polled h s c

theorem sound_deleteContext {n : Node} (h : n.Sound) (s : SessionId) (channel tx : String) :
    (n.deleteContext s channel tx).Sound :=
  h.modify s (fun _ _ sound => sound.delete channel tx) fun _ _ ctx _ known held => ⟨ctx, known, held⟩

theorem sound_act {n : Node} (h : n.Sound) (a : Act) : (n.act a).Sound := by
  cases a with
  | handle s m => exact sound_path h (path_handle n s m)
  | ready s channel tx signedProposal proposal =>
    exact sound_ready h s channel tx signedProposal proposal
  | poll s c => exact sound_poll h s c
  | deleteContext s channel tx => exact sound_deleteContext h s channel tx
  | execute s label channel m signedProposal proposal =>
    exact sound_started h (fun _ ⟨_, given⟩ => given ▸ n.blank_newContext ..)
      (started_execute n s label channel m signedProposal proposal)
  | run s label i =>
    exact sound_started h (fun _ ⟨_, made⟩ => blank_of_called made) (started_run n s label i)
  | pass span => exact sound_path h (path_pass n span)
  | _ => exact sound_touch h (touches_act n rfl)

theorem sound_steps {n : Node} (h : n.Sound) (acts : List Act) : (n.steps acts).Sound := by
  induction acts generalizing n with
  | nil => exact h
  | cons a acts ih => exact ih (sound_path (sound_act h a) (path_settle _))

theorem sound_withChannels (channels historyless system : List String) (drill : Drill) :
    (withChannels channels historyless system drill).Sound where
  transactions s ses found := by cases found
  waits call waits := by cases waits
  apart := .nil

end Node

end ContractNode
