import ContractNode.Proofs.Moves
import ContractNode.Proofs.Tidy
import Mathlib.Data.List.Nodup

/-!
# Which contexts are registered

* `registered_perm` : on a tidy node, the contexts that a session has registered are those of the
  executions that wait on it and of the handshakes noted;
* `Watched.Run`, `tidy_of_run` : nodes stay tidy, whatever happens in whatever order;
* `registered_of_run` : so it is with the contexts at any time, and whoever is left waiting on a
  session that has ended came too late;
* `waits_of_late` : an execution and a handshake that come too late are left waiting.
-/

namespace ContractNode

theorem Transactions.Sound.nodup {t : Transactions} (h : t.Sound) : t.registered.Nodup := by
  unfold Transactions.registered List.Nodup
  rw [List.pairwise_map]
  refine t.index.ascending.imp_of_mem fun {a b} memA memB before same => ?_
  obtain ⟨ctx, known, keyA⟩ := h.indexed a.1 a.2 (KeyMap.mem_entries_iff.1 memA)
  obtain ⟨ctx', known', keyB⟩ := h.indexed b.1 b.2 (KeyMap.mem_entries_iff.1 memB)
  rw [same] at known
  cases Option.some.inj (known.symm.trans known')
  rw [← keyA, ← keyB] at before
  exact Text.Before.irrefl _ before

namespace Node

def waitingOn (n : Node) (s : SessionId) : List Nat :=
  (n.calls.filter fun call => call.session == s).map (·.context)

def handshakesOn (hs : List Handshake) (s : SessionId) : List Nat :=
  (hs.filter fun h => h.session == s).map (·.context)

section Registered

variable {n : Node} {late : Place → Prop} {hs : List Handshake} {s : SessionId} {ses : Session}

/-- The numbers of the contexts at places of one session. -/
theorem numbers_places (n : Node) (hs : List Handshake) (s : SessionId) :
    ((n.places (handshakePlaces hs)).filter fun p => p.1 == s).map Prod.snd =
      n.waitingOn s ++ handshakesOn hs s := by
  unfold places handshakePlaces waitingOn handshakesOn
  rw [List.filter_append, List.map_append, List.filter_map, List.filter_map, List.map_map,
    List.map_map]
  rfl

theorem registered_perm (h : n.Tidy late hs) (found : n.session? s = some ses) :
    ses.transactions.registered.Perm (n.waitingOn s ++ handshakesOn hs s) := by
  rw [← numbers_places]
  refine (List.perm_ext_iff_of_nodup (h.sound.transactions s ses found).nodup ?_).2 fun c => ?_
  · refine List.Nodup.map_on (fun a memA b memB same => ?_) (h.kept.distinct.filter _)
    have first := beq_iff_eq.1 (List.mem_filter.1 memA).2
    have second := beq_iff_eq.1 (List.mem_filter.1 memB).2
    exact Prod.ext (first.trans second.symm) same
  · rw [Transactions.mem_registered_iff]
    constructor
    · rintro ⟨k, registered⟩
      exact List.mem_map.2 ⟨(s, c), List.mem_filter.2
        ⟨h.kept.owned s ses k c found registered, beq_self_eq_true s⟩, rfl⟩
    · intro mem
      obtain ⟨⟨t, c'⟩, chosen, rfl⟩ := List.mem_map.1 mem
      obtain ⟨place, same⟩ := List.mem_filter.1 chosen
      cases beq_iff_eq.1 same
      obtain ⟨ctx, _, _, registered⟩ := h.kept.stands_found found place
      exact ⟨ctx.key, registered⟩

theorem found_of_call (h : n.Tidy late hs) {call : Call} (waits : call ∈ n.calls)
    (found : n.session? call.session = some ses) :
    ∃ ctx, ses.transactions.context? call.context = some ctx ∧
      ses.transactions.find? ctx.channel ctx.tx = some call.context := by
  obtain ⟨ctx, known, _, registered⟩ := h.kept.stands_found found (place_of_call waits)
  exact ⟨ctx, known, registered⟩

theorem found_of_handshake (h : n.Tidy late hs) {shake : Handshake} (mem : shake ∈ hs)
    (found : n.session? shake.session = some ses) :
    ses.transactions.find? shake.channel shake.tx = some shake.context := by
  have place : shake.place ∈ n.places (handshakePlaces hs) :=
    List.mem_append_right _ (List.mem_map_of_mem mem)
  obtain ⟨ctx, known, _, registered⟩ := h.kept.stands_found found place
  obtain ⟨channel, tx⟩ := h.named shake mem ctx (context?_eq_some_iff.2 ⟨ses, found, known⟩)
  rw [← channel, ← tx]
  exact registered

/-- Whoever waits on a session that has ended has been told, unless they came too late. -/
theorem told_of_ended (h : n.Tidy late hs) (found : n.session? s = some ses)
    (ended : ses.phase = .ended) :
    (∀ call ∈ n.calls, call.session = s → late (s, call.context) ∨ n.HasMessage s call.context) ∧
      ∀ shake ∈ hs, shake.session = s → late (s, shake.context) ∨ shake.told = true ∨
        n.HasMessage s shake.context := by
  have informed {c : Nat} (place : (s, c) ∈ n.places (untold hs)) :
      late (s, c) ∨ n.HasMessage s c :=
    Classical.or_iff_not_imp_left.2 fun early => h.informed s c place early ses found ended
  refine ⟨fun call waits same => ?_, fun shake mem same => ?_⟩
  · subst same
    exact informed (place_of_call waits)
  · subst same
    cases told : shake.told with
    | true => exact .inr (.inl rfl)
    | false =>
      have place : shake.place ∈ n.places (untold hs) :=
        List.mem_append_right _ (List.mem_map_of_mem (List.mem_filter.2 ⟨mem, by rw [told]; rfl⟩))
      exact (informed place).imp_right .inr

end Registered

end Node

namespace Watched

def act (w : Watched) (a : Act) : Watched := ⟨w.node.act a, w.noted a⟩

def settle (w : Watched) : Watched := ⟨w.node.settle, w.handshakes⟩

/-- The inbound loop of a session takes a turn, if it has any. -/
def receive (w : Watched) (s : SessionId) : Watched :=
  ⟨(w.node.receive? s).getD w.node, w.handshakes⟩

/-- One indivisible thing that happens to a watched node. Nobody takes the message of an execution
but the execution. -/
inductive Move : Watched → Watched → Prop
  | act {w : Watched} (a : Act) (allowed : w.allows a = true) (once : ∀ span, a ≠ .pass span)
      (unheard : ∀ s c, a = .poll s c → ∀ call ∈ w.node.calls,
        (call.session, call.context) = (s, c) → ¬ w.node.HasMessage s c) : Move w (w.act a)
  | alone {w : Watched} {n' : Node} (move : Node.Move (fun _ => False) w.node n') :
      Move w ⟨n', w.handshakes⟩

/-- Any number of moves, in any order. -/
abbrev Moves : Watched → Watched → Prop := Relation.ReflTransGen Move

theorem moves_alone {w : Watched} {n' : Node} (moves : Node.Moves (fun _ => False) w.node n') :
    Moves w ⟨n', w.handshakes⟩ := by
  induction moves with
  | refl => exact .refl
  | tail _ move ih => exact ih.tail (.alone move)

theorem moves_settle (w : Watched) : Moves w w.settle := moves_alone (Node.moves_turns ..)

theorem moves_receive (w : Watched) (s : SessionId) : Moves w (w.receive s) := by
  unfold receive
  cases took : w.node.receive? s with
  | none => exact .refl
  | some n' => exact .single (.alone (.receive took))

/-- Acts that come while the node is at rest, in order, are such moves. -/
theorem moves_of_orderly {w : Watched} (rest : w.node.AtRest) {acts : List Act}
    (orderly : w.orderly acts = true) : Moves w (w.steps acts) := by
  induction acts generalizing w with
  | nil => exact .refl
  | cons a acts ih =>
    obtain ⟨allowed, orderly⟩ := Bool.and_eq_true_iff.1 orderly
    have acts : Moves w (w.act a) := by
      by_cases passes : ∃ span, a = .pass span
      · obtain ⟨span, rfl⟩ := passes
        exact moves_alone ((Node.moves_lapseWhile ..).tail (.tick _))
      · refine .single (.act a allowed (fun span same => passes ⟨span, same⟩) ?_)
        rintro s c - call waits same held
        cases same
        exact Node.silent_of_rest rest waits held
    exact (acts.trans (w.act a).moves_settle).trans (ih (Node.settle_atRest _) orderly)

theorem moves_of_steps {n : Node} (rest : n.AtRest) {acts : List Act}
    (orderly : (⟨n, []⟩ : Watched).orderly acts = true) : ∃ hs, Moves ⟨n, []⟩ ⟨n.steps acts, hs⟩ := by
  refine ⟨((⟨n, []⟩ : Watched).steps acts).handshakes, ?_⟩
  rw [← node_steps ⟨n, []⟩]
  exact moves_of_orderly rest orderly

/-- A run from a watched node, by moves in any order: the nodes that it passes, and the one that it
comes to. -/
inductive Run (w₀ : Watched) : List Watched → Watched → Prop
  | start : Run w₀ [] w₀
  | move {passed : List Watched} {w w' : Watched} (run : Run w₀ passed w) (move : Move w w') :
      Run w₀ (passed ++ [w]) w'

theorem run_of_moves {w₀ w : Watched} (moves : Moves w₀ w) : ∃ passed, Run w₀ passed w := by
  induction moves with
  | refl => exact ⟨[], .start⟩
  | tail _ move ih =>
    obtain ⟨passed, run⟩ := ih
    exact ⟨_, run.move move⟩

/-- At a node that was passed, a session had ended while its outbound loop went on, and a context of
it was not there yet. -/
def Late (passed : List Watched) (p : Place) : Prop := ∃ w ∈ passed, w.node.Lingers p

variable {w₀ w w' : Watched} {late : Place → Prop} {passed : List Watched}

theorem tidy_move (h : w.node.Tidy late w.handshakes) (came : ∀ p, w.node.Lingers p → late p)
    (move : Move w w') : w'.node.Tidy late w'.handshakes := by
  cases move with
  | act a allowed once unheard =>
    exact Node.tidy_act h came allowed unheard
  | alone move =>
    rcases Node.act_or_path move with ⟨_, ⟨⟩, _⟩ | path
    exact Node.tidy_path h path

theorem tidy_of_run (h : w₀.node.Tidy (fun _ => False) w₀.handshakes) (run : Run w₀ passed w) :
    w.node.Tidy (Late passed) w.handshakes := by
  induction run with
  | start => exact h.mono fun _ => False.elim
  | @move passed w₁ w₂ _ move ih =>
    have tidy : w₁.node.Tidy (Late (passed ++ [w₁])) w₁.handshakes :=
      ih.mono fun p ⟨w, mem, lingers⟩ => ⟨w, List.mem_append_left _ mem, lingers⟩
    exact tidy_move tidy (fun p lingers => ⟨w₁, List.mem_append_right _ (.head _), lingers⟩) move

end Watched

namespace Node

/-- At any time, a session has registered one context for each execution that waits on it and for
each handshake that was begun and not deleted yet, and no other. Each is found by its transaction. If
the session has ended, each execution and each handshake has had a message, unless it came after that
and before the outbound loop had stopped. When all is at rest, no other executions wait. -/
theorem registered_of_run {channels historyless system : List String} {drill : Drill}
    {passed : List Watched} {w : Watched}
    (run : Watched.Run ⟨withChannels channels historyless system drill, []⟩ passed w)
    {s : SessionId} {ses : Session} (found : w.node.session? s = some ses) :
    ses.transactions.registered.Perm (w.node.waitingOn s ++ handshakesOn w.handshakes s) ∧
      ses.transactions.registered.Nodup ∧
      (∀ call ∈ w.node.calls, call.session = s → ∃ ctx,
        ses.transactions.context? call.context = some ctx ∧
          ses.transactions.find? ctx.channel ctx.tx = some call.context) ∧
      (∀ shake ∈ w.handshakes, shake.session = s →
        ses.transactions.find? shake.channel shake.tx = some shake.context) ∧
      (ses.phase = .ended →
        (∀ call ∈ w.node.calls, call.session = s →
          Watched.Late passed (s, call.context) ∨ w.node.HasMessage s call.context) ∧
        (∀ shake ∈ w.handshakes, shake.session = s → Watched.Late passed (s, shake.context) ∨
          shake.told = true ∨ w.node.HasMessage s shake.context) ∧
        (w.node.AtRest → ∀ call ∈ w.node.calls, call.session = s →
          Watched.Late passed (s, call.context))) := by
  have tidy : w.node.Tidy (Watched.Late passed) w.handshakes :=
    Watched.tidy_of_run (tidy_withChannels channels historyless system drill fun _ => False) run
  refine ⟨registered_perm tidy found, (tidy.sound.transactions s ses found).nodup,
    fun call waits same => ?_, fun shake mem same => ?_, fun ended => ?_⟩
  · subst same
    exact found_of_call tidy waits found
  · subst same
    exact found_of_handshake tidy mem found
  · obtain ⟨calls, shakes⟩ := told_of_ended tidy found ended
    refine ⟨calls, shakes, fun rest call waits same => (calls call waits same).resolve_right ?_⟩
    subst same
    exact silent_of_rest rest waits

/-- When acts come while the node is at rest, nobody comes too late. -/
theorem told_of_orderly (channels historyless system : List String) (drill : Drill)
    {acts : List Act} (orderly : (⟨withChannels channels historyless system drill, []⟩ :
      Watched).orderly acts = true) {s : SessionId} {ses : Session}
    (found : ((withChannels channels historyless system drill).steps acts).session? s = some ses)
    (ended : ses.phase = .ended) :
    let n := (withChannels channels historyless system drill).steps acts
    let hs := ((⟨withChannels channels historyless system drill, []⟩ : Watched).steps acts).handshakes
    (∀ call ∈ n.calls, call.session ≠ s) ∧
      ∀ shake ∈ hs, shake.session = s → shake.told = true ∨ n.HasMessage s shake.context := by
  have tidy := Watched.tidy_steps
    (tidy_withChannels channels historyless system drill fun _ => False)
    (atRest_withChannels ..) orderly
  have rest := atRest_steps (atRest_withChannels channels historyless system drill) acts
  rw [Watched.node_steps] at tidy
  obtain ⟨calls, shakes⟩ := told_of_ended tidy found ended
  refine ⟨fun call waits same => ?_, fun shake mem same => (shakes shake mem same).resolve_left id⟩
  subst same
  exact silent_of_rest rest waits ((calls call waits rfl).resolve_left id)

end Node

/-! ## Whoever comes too late -/

/-- A contract runs a transaction, and the handshake of another one has begun. -/
def busyRun : List Act :=
  [.openSession {} {} .directory, .start 0,
    .contractSends 0 { kind := .register, payload := ContractId.codec.encode { name := "cc:1" } },
    .execute 0 "a" "ch" { kind := .transaction, tx := "t1" } none none,
    .ready 0 "ch" "t2" none none]

namespace Watched

/-- The contract closes the connection of a busy session, and the inbound loop ends the session.
Before the outbound loop has stopped, another execution and another handshake come. -/
def lateRun : Watched :=
  let w := ((⟨Node.withChannels ["ch"] [] [] {}, []⟩ : Watched).steps busyRun).act (.contractCloses 0)
  let w' := (w.receive 0).act (.execute 0 "b" "ch" { kind := .transaction, tx := "t3" } none none)
  (w'.act (.ready 0 "ch" "t4" none none)).settle

theorem moves_lateRun : Moves ⟨Node.withChannels ["ch"] [] [] {}, []⟩ lateRun := by
  have orderly : (⟨Node.withChannels ["ch"] [] [] {}, []⟩ : Watched).orderly busyRun = true := by
    decide +kernel
  have busy := moves_of_orderly (Node.atRest_withChannels ["ch"] [] [] {}) orderly
  unfold lateRun
  generalize (⟨Node.withChannels ["ch"] [] [] {}, []⟩ : Watched).steps busyRun = w at busy
  have goes (w : Watched) {a : Act} (allowed : w.allows a = true) (once : ∀ span, a ≠ .pass span)
      (apart : ∀ s c, a ≠ .poll s c) : Move w (w.act a) :=
    .act a allowed once fun s c polls => absurd polls (apart s c)
  have ended := (busy.tail (goes w (a := .contractCloses 0) rfl (fun _ => nofun) fun _ _ =>
    nofun)).trans (moves_receive _ 0)
  have executed := ended.tail (goes _ (a := .execute 0 "b" "ch" { kind := .transaction, tx := "t3" }
    none none) rfl (fun _ => nofun) fun _ _ => nofun)
  have readied := executed.tail (goes _ (a := .ready 0 "ch" "t4" none none) rfl (fun _ => nofun)
    fun _ _ => nofun)
  exact readied.trans (moves_settle _)

end Watched

namespace Node

theorem registered_of_run_lateRun : ∃ passed,
    Watched.Run ⟨withChannels ["ch"] [] [] {}, []⟩ passed Watched.lateRun ∧
      ∃ ses, Watched.lateRun.node.session? 0 = some ses ∧ ses.phase = .ended ∧
        ses.transactions.registered.Perm [2, 1, 3] ∧ Watched.Late passed (0, 2) := by
  have there : (Watched.lateRun.node.turn?.isNone &&
      (Watched.lateRun.node.session? 0).any (·.phase == .ended) &&
        (Watched.lateRun.node.calls.any fun call => call.session == 0 && call.context == 2) &&
          (Watched.lateRun.node.waitingOn 0 ++ handshakesOn Watched.lateRun.handshakes 0) ==
            [2, 1, 3]) = true := by decide +kernel
  simp only [Bool.and_eq_true, Option.isNone_iff_eq_none, Option.any_eq_true, beq_iff_eq,
    List.any_eq_true] at there
  obtain ⟨⟨⟨rest, ses, found, ended⟩, call, waits, session, context⟩, numbers⟩ := there
  obtain ⟨passed, run⟩ := Watched.run_of_moves Watched.moves_lateRun
  obtain ⟨registered, _, _, _, told⟩ := registered_of_run run found
  refine ⟨passed, run, ses, found, ended, numbers ▸ registered, ?_⟩
  rw [← context]
  exact (told ended).2.2 rest call waits session

/-- When all is at rest, the session has ended, the execution that came too late waits still, and the
handshake has had no message. -/
theorem waits_of_late :
    Watched.Moves ⟨withChannels ["ch"] [] [] {}, []⟩ Watched.lateRun ∧
      Watched.lateRun.node.AtRest ∧ ∃ ses, Watched.lateRun.node.session? 0 = some ses ∧
        ses.phase = .ended ∧ (∃ call ∈ Watched.lateRun.node.calls, call.session = 0) ∧
          ∃ shake ∈ Watched.lateRun.handshakes, shake.session = 0 ∧ shake.told = false ∧
            ¬ Watched.lateRun.node.HasMessage 0 shake.context := by
  have there : (Watched.lateRun.node.turn?.isNone &&
      (Watched.lateRun.node.session? 0).any (·.phase == .ended) &&
        (Watched.lateRun.node.calls.any fun call => call.session == 0) &&
          (Watched.lateRun.handshakes.any fun shake => shake.session == 0 && !shake.told &&
            (Watched.lateRun.node.context? 0 shake.context).any fun ctx =>
              ctx.slot.message.isNone)) = true := by
    decide +kernel
  simp only [Bool.and_eq_true, Option.isNone_iff_eq_none, Option.any_eq_true, beq_iff_eq,
    List.any_eq_true, Bool.not_eq_true'] at there
  obtain ⟨⟨⟨rest, ses, found, ended⟩, call, waits, session⟩, shake, mem, ⟨here, untold⟩, ctx, known,
    empty⟩ := there
  refine ⟨Watched.moves_lateRun, rest, ses, found, ended, ⟨call, waits, session⟩, shake, mem, here,
    untold, ?_⟩
  rintro ⟨ctx', known', held⟩
  cases Option.some.inj (known.symm.trans known')
  rw [empty] at held
  cases held

end Node

end ContractNode
