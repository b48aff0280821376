import ContractNode.Proofs.Halfway

/-!
# Who is listed in the middle of registrations

A session is listed in the directory because it takes itself to be registered, because a thread is
registering it, or because a thread has yet to give its key up. As long as nobody has a session give
its key up while it is being registered, it is one of these at a time.

* `Joining.Knows`, `Leaving.Owes` : what a thread in the middle of something may rely on;
* `Tenure` : why a session is listed, or that it is not;
* `Tenure.shown`, `Tenure.withdraw`, `Tenure.finish` : what moves do to that;
* `Tenure.of_registers`, `Tenure.of_deregisters` : what is known when a thread goes on.
-/

namespace ContractNode

namespace Thread

def session : Thread → SessionId
  | .registers s .. | .follows s _ | .deregisters s _ => s

/-- The thread has an entry of the directory to settle. -/
def Engaged : Thread → Prop
  | .registers .. | .deregisters _ .look | .deregisters _ (.vacate _) => True
  | .follows .. | .deregisters _ .strike => False

end Thread

/-- What a session is registered as so far. -/
def Joining.Knows (id : ContractId) (st : Standing) : Joining → Prop
  | .flag => st.isRegistered = false
  | .identity => st.isRegistered = true
  | .place => st.isRegistered = true ∧ st.identity = some id
  | .tell | .establish | .undo .strike =>
    st.isRegistered = true ∧ st.identity = some id ∧
      st.place = some (ContractInstance.ofName id.name)
  | .undo .look => st.isRegistered = false ∧ st.place = some (ContractInstance.ofName id.name)
  | .undo (.vacate key) => st.isRegistered = false ∧ key = (ContractInstance.ofName id.name).key

/-- The key that is yet to be given up. -/
def Leaving.Owes (st : Standing) (key : String) : Leaving → Prop
  | .strike => False
  | .look => ∃ i, st.place = some i ∧ i.key = key
  | .vacate key' => key' = key

/-- A thread has an entry of a session to settle. -/
def Engages (threads : Nat → Option Thread) (s : SessionId) (i : Nat) : Prop :=
  ∃ th, threads i = some th ∧ th.session = s ∧ th.Engaged

/-- Why a session is listed, or that it is not. -/
inductive Tenure (r : Roll) (threads : Nat → Option Thread) (s : SessionId) : Prop
  | out (off : (r.standing s).isRegistered = false) (none : ∀ k, r.directory.get? k ≠ some s)
      (idle : ∀ i, ¬ Engages threads s i)
  /-- It takes itself to be registered, or it has ended and is about to give its key up. -/
  | within {id : ContractId} (on : (r.standing s).isRegistered = true)
      (identity : (r.standing s).identity = some id)
      (place : (r.standing s).place = some (ContractInstance.ofName id.name))
      (entries : ∀ k, r.directory.get? k = some s ↔ (ContractInstance.ofName id.name).key = k)
      (live : (r.standing s).phase = .established ∨ (r.standing s).phase = .ready ∨
        (r.standing s).phase = .ended ∧ ∃ i, threads i = some (.deregisters s .strike))
      (idle : ∀ i, ¬ Engages threads s i)
  | entering {i : Nat} {id : ContractId} {e : Joining} {how : Showing}
      (busy : threads i = some (.registers s id e how))
      (created : (r.standing s).phase = .created) (knows : e.Knows id (r.standing s))
      (entries : ∀ k, r.directory.get? k = some s ↔ (ContractInstance.ofName id.name).key = k)
      (alone : ∀ j, Engages threads s j → j = i)
  | leaving {i : Nat} {l : Leaving} {key : String} (busy : threads i = some (.deregisters s l))
      (off : (r.standing s).isRegistered = false) (past : (r.standing s).phase ≠ .created)
      (owes : l.Owes (r.standing s) key) (entries : ∀ k, r.directory.get? k = some s ↔ key = k)
      (alone : ∀ j, Engages threads s j → j = i)

namespace Tenure

variable {r r' : Roll} {threads threads' : Nat → Option Thread} {s t : SessionId} {m : Message}

/-- What a session is listed for is about the session only. -/
theorem transfer (h : Tenure r threads s) (standing : r'.standing s = r.standing s)
    (entries : ∀ k, r'.directory.get? k = some s ↔ r.directory.get? k = some s)
    (same : ∀ i th, th.session = s → (threads' i = some th ↔ threads i = some th)) :
    Tenure r' threads' s := by
  have engages (i : Nat) : Engages threads' s i ↔ Engages threads s i := by
    constructor
    · rintro ⟨th, busy, here, engaged⟩
      exact ⟨th, (same i th here).1 busy, here, engaged⟩
    · rintro ⟨th, busy, here, engaged⟩
      exact ⟨th, (same i th here).2 busy, here, engaged⟩
  cases h with
  | out off none idle =>
    exact .out (standing ▸ off) (fun k entry => none k ((entries k).1 entry))
      fun i engaged => idle i ((engages i).1 engaged)
  | within on identity place entries' live idle =>
    refine .within (standing ▸ on) (standing ▸ identity) (standing ▸ place)
      (fun k => (entries k).trans (entries' k)) ?_ fun i engaged => idle i ((engages i).1 engaged)
    rw [standing]
    exact live.imp_right (.imp_right (.imp_right fun ⟨i, busy⟩ => ⟨i, (same i _ rfl).2 busy⟩))
  | entering busy created knows entries' alone =>
    exact .entering ((same _ _ rfl).2 busy) (standing ▸ created) (standing ▸ knows)
      (fun k => (entries k).trans (entries' k)) fun j engaged => alone j ((engages j).1 engaged)
  | leaving busy off past owes entries' alone =>
    exact .leaving ((same _ _ rfl).2 busy) (standing ▸ off) (standing ▸ past) (standing ▸ owes)
      (fun k => (entries k).trans (entries' k)) fun j engaged => alone j ((engages j).1 engaged)

/-- A session that is not past `created`, and that no thread is registering, is not listed. -/
theorem out_of_created (h : Tenure r threads s) (free : ¬ Held threads s)
    (created : (r.standing s).phase = .created) :
    (r.standing s).isRegistered = false ∧ (∀ k, r.directory.get? k ≠ some s) ∧
      ∀ i, ¬ Engages threads s i := by
  cases h with
  | out off none idle => exact ⟨off, none, idle⟩
  | within _ _ _ _ live =>
    rw [created] at live
    rcases live with live | live | ⟨live, _⟩ <;> cases live
  | entering busy => exact absurd ⟨_, _, _, _, busy⟩ free
  | leaving _ _ past => exact absurd created past

/-- A key that is given up is the only one. -/
theorem get?_vacate {key : String} (entries : ∀ k, r.directory.get? k = some s ↔ key = k) :
    (∀ k, (r.directory.deregister key).get? k ≠ some s) ∧ ∀ t, s ≠ t → ∀ k,
      (r.directory.deregister key).get? k = some t ↔ r.directory.get? k = some t := by
  refine ⟨fun k entry => ?_, fun t other k => ?_⟩
  · rw [Directory.get?_deregister] at entry
    split at entry
    · cases entry
    · rename_i apart
      exact apart ((entries k).1 entry)
  · rw [Directory.get?_deregister]
    split
    · rename_i same
      rw [(entries k).2 same]
      exact ⟨nofun, fun entry => absurd (Option.some.inj entry) other⟩
    · exact Iff.rfl

/-- A key that was free goes to a session that was not listed. -/
theorem get?_take {d : Directory} {key : String} (vacant : r.directory.register key s = .ok d)
    (none : ∀ k, r.directory.get? k ≠ some s) :
    (∀ k, d.get? k = some s ↔ key = k) ∧
      ∀ t, s ≠ t → ∀ k, d.get? k = some t ↔ r.directory.get? k = some t := by
  have free := Directory.get?_of_register vacant
  refine ⟨fun k => ?_, fun t other k => ?_⟩
  · rw [Directory.get?_register vacant]
    split
    · rename_i same
      exact ⟨fun _ => same, fun _ => rfl⟩
    · rename_i apart
      exact ⟨fun entry => absurd entry (none k), fun same => absurd same apart⟩
  · rw [Directory.get?_register vacant]
    split
    · rename_i same
      rw [← same, free]
      exact ⟨fun entry => absurd (Option.some.inj entry) other, nofun⟩
    · exact Iff.rfl

/-! ## What moves do -/

theorem withdraw (h : Tenure r threads s) (free : ¬ Held threads s) :
    Tenure (r.withdraw s) threads s ∧ ∀ t, s ≠ t → ∀ k,
      (r.withdraw s).directory.get? k = some t ↔ r.directory.get? k = some t := by
  have off (off : (r.standing s).isRegistered = false) : r.withdraw s = r := by
    unfold Roll.withdraw
    rw [if_neg (Bool.eq_false_iff.1 off)]
  cases h with
  | out none entries idle =>
    rw [off none]
    exact ⟨.out none entries idle, fun _ _ _ => Iff.rfl⟩
  | leaving busy none past owes entries alone =>
    rw [off none]
    exact ⟨.leaving busy none past owes entries alone, fun _ _ _ => Iff.rfl⟩
  | entering busy => exact absurd ⟨_, _, _, _, busy⟩ free
  | @within id on identity place entries live idle =>
    have directory : (r.withdraw s).directory =
        r.directory.deregister (ContractInstance.ofName id.name).key := by
      unfold Roll.withdraw
      rw [if_pos on, Roll.directory_put, place]
      rfl
    obtain ⟨none, others⟩ := get?_vacate entries
    rw [← directory] at none others
    exact ⟨.out (by rw [Roll.standing_withdraw]) none idle, others⟩

/-- A session that no thread is registering gets on in its life. -/
theorem rephase (h : Tenure r threads s) (free : ¬ Held threads s) {phase : Phase}
    (past : phase ≠ .created)
    (live : (r.standing s).isRegistered = true → phase = .established ∨ phase = .ready ∨
      phase = .ended ∧ ∃ i, threads i = some (.deregisters s .strike)) :
    Tenure (r.put s { r.standing s with phase }) threads s := by
  have standing : (r.put s { r.standing s with phase }).standing s =
      { r.standing s with phase } := Roll.standing_put_self ..
  cases h with
  | out off none idle => exact .out (by rw [standing]; exact off) none idle
  | within on identity place entries _ idle =>
    exact .within (by rw [standing]; exact on) (by rw [standing]; exact identity)
      (by rw [standing]; exact place) entries (by rw [standing]; exact live on) idle
  | entering busy => exact absurd ⟨_, _, _, _, busy⟩ free
  | @leaving i l key busy off _ owes entries alone =>
    refine .leaving (l := l) busy (by rw [standing]; exact off) (by rw [standing]; exact past) ?_
      entries alone
    rw [standing]
    cases l <;> exact owes

theorem shown (h : Tenure r threads s) (free : ¬ Held threads s) (shown : r.Shown s m r') :
    Tenure r' threads s ∧ ∀ t, s ≠ t → ∀ k,
      r'.directory.get? k = some t ↔ r.directory.get? k = some t := by
  cases shown with
  | ignored => exact ⟨h, fun _ _ _ => Iff.rfl⟩
  | @enlisted id d created _ _ vacant =>
    obtain ⟨_, none, idle⟩ := h.out_of_created free created
    obtain ⟨entries, others⟩ := get?_take vacant none
    refine ⟨.within ?_ ?_ ?_ entries (.inl ?_) idle, others⟩
    all_goals
      unfold Roll.enlist
      rw [Roll.standing_put_self]
  | @untold id d created vacant =>
    obtain ⟨_, none, idle⟩ := h.out_of_created free created
    obtain ⟨entries, others⟩ := get?_take vacant none
    have directory : ((r.enlist s .created id d).withdraw s).directory =
        d.deregister (ContractInstance.ofName id.name).key := by
      unfold Roll.withdraw Roll.enlist
      rw [Roll.standing_put_self]
      rfl
    obtain ⟨gone, still⟩ := get?_vacate (r := { r with directory := d }) entries
    refine ⟨.out (by rw [Roll.standing_withdraw]) (directory ▸ gone) idle, fun t other k => ?_⟩
    rw [directory]
    exact (still t other k).trans (others t other k)
  | readied => exact ⟨h.rephase free nofun fun _ => .inr (.inl rfl), fun _ _ _ => Iff.rfl⟩

/-- A session that is listed stays so when it is shown a message. -/
theorem entry_shown (h : Tenure r threads s) (free : ¬ Held threads s) (shown : r.Shown s m r')
    {k : String} (entry : r.directory.get? k = some s) : r'.directory.get? k = some s := by
  cases shown with
  | ignored | readied => exact entry
  | enlisted created | untold created => exact absurd entry ((h.out_of_created free created).2.1 k)

theorem finish (h : Tenure r threads s) (free : ¬ Held threads s) :
    Tenure (r.finish s) threads s ∧ ∀ t, s ≠ t → ∀ k,
      (r.finish s).directory.get? k = some t ↔ r.directory.get? k = some t := by
  obtain ⟨left, others⟩ := h.withdraw free
  refine ⟨left.rephase free nofun fun on => ?_, others⟩
  rw [Roll.standing_withdraw] at on
  cases on

/-! ## What statements do -/

theorem engages_update {i j : Nat} {o : Option Thread}
    (h : Engages (Function.update threads i o) s j) :
    j = i ∧ (∃ th, o = some th ∧ th.Engaged) ∨ j ≠ i ∧ Engages threads s j := by
  obtain ⟨th, busy, here, engaged⟩ := h
  by_cases same : j = i
  · subst same
    rw [Function.update_self] at busy
    exact .inl ⟨rfl, th, busy, engaged⟩
  · rw [Function.update_of_ne same] at busy
    exact .inr ⟨same, th, busy, here, engaged⟩

section Statements

variable {i : Nat} {id : ContractId} {e e' : Joining} {how : Showing} {l l' : Leaving}

/-- What is known while a thread is registering a session. -/
theorem of_registers (h : Tenure r threads s)
    (busy : threads i = some (.registers s id e how)) :
    (r.standing s).phase = .created ∧ e.Knows id (r.standing s) ∧
      (∀ k, r.directory.get? k = some s ↔ (ContractInstance.ofName id.name).key = k) ∧
        ∀ j, Engages threads s j → j = i := by
  have engaged : Engages threads s i := ⟨_, busy, rfl, trivial⟩
  cases h with
  | out _ _ idle => exact absurd engaged (idle i)
  | within _ _ _ _ _ idle => exact absurd engaged (idle i)
  | entering busy' created knows entries alone =>
    cases alone i engaged
    cases busy.symm.trans busy'
    exact ⟨created, knows, entries, alone⟩
  | leaving busy' _ _ _ _ alone =>
    cases alone i engaged
    cases busy.symm.trans busy'

/-- What is known while a thread has yet to give the key of a session up. -/
theorem of_deregisters (h : Tenure r threads s) (busy : threads i = some (.deregisters s l))
    (other : l ≠ .strike) :
    (r.standing s).isRegistered = false ∧ (r.standing s).phase ≠ .created ∧
      ∃ key, l.Owes (r.standing s) key ∧ (∀ k, r.directory.get? k = some s ↔ key = k) ∧
        ∀ j, Engages threads s j → j = i := by
  have engaged : Engages threads s i := by
    refine ⟨_, busy, rfl, ?_⟩
    cases l with
    | strike => exact absurd rfl other
    | look | vacate => trivial
  cases h with
  | out _ _ idle => exact absurd engaged (idle i)
  | within _ _ _ _ _ idle => exact absurd engaged (idle i)
  | entering busy' _ _ _ alone =>
    cases alone i engaged
    cases busy.symm.trans busy'
  | leaving busy' off past owes entries alone =>
    cases alone i engaged
    cases busy.symm.trans busy'
    exact ⟨off, past, _, owes, entries, alone⟩

theorem registers_on (h : Tenure r threads s) (busy : threads i = some (.registers s id e how))
    {st : Standing} (standing : r'.standing s = st) (created : st.phase = .created)
    (knows : e'.Knows id st) (directory : r'.directory = r.directory) :
    Tenure r' (Function.update threads i (some (.registers s id e' how))) s := by
  subst standing
  obtain ⟨_, _, entries, alone⟩ := h.of_registers busy
  refine .entering (Function.update_self ..) created knows (directory ▸ entries) fun j engaged => ?_
  rcases engages_update engaged with ⟨same, _⟩ | ⟨_, engaged⟩
  · exact same
  · exact alone j engaged

/-- Nothing is engaged any more when the only thread is done. -/
theorem idle_of_alone {o : Option Thread} (alone : ∀ j, Engages threads s j → j = i)
    (done : ∀ th, o = some th → ¬ th.Engaged) (j : Nat) :
    ¬ Engages (Function.update threads i o) s j := by
  intro engaged
  rcases engages_update engaged with ⟨_, th, now, engaged⟩ | ⟨other, engaged⟩
  · exact done th now engaged
  · exact other (alone j engaged)

/-- A registration comes to its end. -/
theorem established (h : Tenure r threads s)
    (busy : threads i = some (.registers s id .establish how))
    (standing : r'.standing s = { r.standing s with phase := .established })
    (directory : r'.directory = r.directory) {o : Option Thread}
    (done : ∀ th, o = some th → ¬ th.Engaged) : Tenure r' (Function.update threads i o) s := by
  obtain ⟨_, ⟨on, identity, place⟩, entries, alone⟩ := h.of_registers busy
  refine @within _ _ _ id ?_ ?_ ?_ (directory ▸ entries) (.inl ?_) (idle_of_alone alone done)
  · rw [standing]
    exact on
  · rw [standing]
    exact identity
  · rw [standing]
    exact place
  · rw [standing]

/-- A session that nobody is registering does not take itself to be registered any more. -/
theorem struck (h : Tenure r threads s) (free : ¬ Held threads s)
    (on : (r.standing s).isRegistered = true)
    (standing : r'.standing s = { r.standing s with isRegistered := false })
    (directory : r'.directory = r.directory) :
    Tenure r' (Function.update threads i (some (.deregisters s .look))) s := by
  cases h with
  | out off | leaving _ off => cases on.symm.trans off
  | entering busy => exact absurd ⟨_, _, _, _, busy⟩ free
  | within _ _ place entries live none =>
    refine .leaving (l := .look) (Function.update_self ..) ?_ ?_ ?_ (directory ▸ entries)
      fun j engaged => ?_
    · rw [standing]
    · rw [standing]
      intro created
      change (r.standing s).phase = .created at created
      rcases live with live | live | ⟨live, _⟩ <;> cases created.symm.trans live
    · rw [standing]
      exact ⟨_, place, rfl⟩
    · rcases engages_update engaged with ⟨same, _⟩ | ⟨_, engaged⟩
      · exact same
      · exact absurd engaged (none j)

/-- A thread that is not engaged takes something else up, which is no engagement either. -/
theorem reassign (h : Tenure r threads s) {o : Option Thread} (before : ¬ Engages threads s i)
    (after : ∀ th, o = some th → ¬ th.Engaged)
    (done : threads i = some (.deregisters s .strike) → (r.standing s).isRegistered = false) :
    Tenure r (Function.update threads i o) s := by
  have still (j : Nat) (engaged : Engages (Function.update threads i o) s j) :
      Engages threads s j := by
    rcases engages_update engaged with ⟨_, th, now, engaged⟩ | ⟨_, engaged⟩
    · exact absurd engaged (after th now)
    · exact engaged
  have other {j : Nat} {th : Thread} (busy : threads j = some th) (here : th.session = s)
      (engaged : th.Engaged) : Function.update threads i o j = some th := by
    rw [Function.update_of_ne, busy]
    rintro rfl
    exact before ⟨th, busy, here, engaged⟩
  cases h with
  | out off none idle => exact .out off none fun j engaged => idle j (still j engaged)
  | within on identity place entries live idle =>
    refine .within on identity place entries
      (live.imp_right (.imp_right fun ⟨ended, j, due⟩ => ⟨ended, j, ?_⟩))
      fun j engaged => idle j (still j engaged)
    rw [Function.update_of_ne, due]
    rintro rfl
    cases on.symm.trans (done due)
  | entering busy created knows entries alone =>
    exact .entering (other busy rfl trivial) created knows entries
      fun j engaged => alone j (still j engaged)
  | @leaving j l key busy off past owes entries alone =>
    have engaged : Thread.Engaged (.deregisters s l) := by
      cases l with
      | strike => cases owes
      | look | vacate => trivial
    exact .leaving (other busy rfl engaged) off past owes entries
      fun j engaged => alone j (still j engaged)

end Statements

end Tenure

end ContractNode
