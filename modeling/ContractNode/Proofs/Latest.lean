import ContractNode.Proofs.Annals

/-!
# What is read is what was set last

A ledger keeps values by channel, by namespace, publicly or in a collection, and by key. Whatever is
done to it, what is read in one place is what was set there last, and what is done in other places
makes no difference.

* `Ledger.Cell` : a place where a ledger keeps a value, and `Ledger.held` : the value there;
* `Act.cell?` : the place that an act is about;
* `LastSet` : the last that was done to a place was to set it to a value;
* `Annals.Faithful` : in every place a ledger holds what was set there last, as every act keeps
  (`Faithful.act`);
* `readings_of_acts` : what is read after any sequence of acts.
-/

namespace ContractNode

namespace Ledger

/-- A place where a ledger keeps a value, in the public state or in a collection. -/
structure Cell where
  channel : String
  name : String
  collection : Option String
  key : String
deriving DecidableEq

/-- The value that a ledger keeps in a place. -/
def held (l : Ledger) (c : Cell) : Option Bytes :=
  (l.space c.channel c.name).read c.collection c.key

def Act.cell? : Act → Option Cell
  | .create _ => none
  | .set sim name collection key _ | .delete sim name collection key =>
    some ⟨sim.channel, name, collection, key⟩

/-- A place was set to a value, and neither set nor deleted since. -/
def LastSet (log : List Act) (c : Cell) (v : Bytes) : Prop :=
  ∃ before tx after,
    log = before ++ .set ⟨c.channel, tx⟩ c.name c.collection c.key v :: after ∧
      ∀ a ∈ after, a.cell? ≠ some c

/-! ## One more act -/

theorem not_lastSet_nil {c : Cell} {v : Bytes} : ¬ LastSet [] c v := by
  rintro ⟨before, tx, after, split, _⟩
  cases before <;> cases split

/-- The last of some acts is the one that is singled out, or one of those that follow it. -/
theorem concat_cases {log before after : List Act} {a b : Act}
    (split : log ++ [a] = before ++ b :: after) :
    after = [] ∧ b = a ∨ ∃ rest, after = rest ++ [a] ∧ log = before ++ b :: rest := by
  rcases List.eq_nil_or_concat after with rfl | ⟨rest, d, rfl⟩
  · obtain ⟨_, same⟩ := List.append_inj' split rfl
    exact .inl ⟨rfl, (List.cons.inj same).1.symm⟩
  · rw [List.concat_eq_append, ← List.cons_append, ← List.append_assoc] at split
    obtain ⟨front, same⟩ := List.append_inj' split rfl
    cases same
    exact .inr ⟨rest, List.concat_eq_append, front⟩

/-- One more act is the one that counts if it is about the place, and does not count if it is not. -/
theorem lastSet_concat_iff {log : List Act} {a : Act} {c : Cell} {v : Bytes} :
    LastSet (log ++ [a]) c v ↔
      (∃ tx, a = .set ⟨c.channel, tx⟩ c.name c.collection c.key v) ∨
        a.cell? ≠ some c ∧ LastSet log c v := by
  constructor
  · rintro ⟨before, tx, after, split, untouched⟩
    rcases concat_cases split with ⟨rfl, rfl⟩ | ⟨rest, rfl, front⟩
    · exact .inl ⟨tx, rfl⟩
    · exact .inr ⟨untouched a (by simp), before, tx, rest, front, fun b mem =>
        untouched b (List.mem_append_left _ mem)⟩
  · rintro (⟨tx, rfl⟩ | ⟨elsewhere, before, tx, after, rfl, untouched⟩)
    · exact ⟨log, tx, [], rfl, fun _ mem => absurd mem List.not_mem_nil⟩
    · refine ⟨before, tx, after ++ [a], by simp, fun b mem => ?_⟩
      rcases List.mem_append.1 mem with mem | mem
      · exact untouched b mem
      · rw [List.mem_singleton.1 mem]
        exact elsewhere

theorem lastSet_concat_of_ne {log : List Act} {a : Act} {c : Cell} {v : Bytes}
    (elsewhere : a.cell? ≠ some c) : LastSet (log ++ [a]) c v ↔ LastSet log c v := by
  rw [lastSet_concat_iff, and_iff_right elsewhere]
  refine ⟨fun either => either.resolve_left ?_, .inr⟩
  rintro ⟨tx, rfl⟩
  exact elsewhere rfl

/-- What an act writes it writes in its place. -/
theorem Act.Writes.cell {sim : Simulator} {name : String} {w : Write} {a : Act}
    (writes : a.Writes sim name w) : a.cell? = some ⟨sim.channel, name, w.collection, w.key⟩ := by
  cases writes <;> rfl

/-- It sets a value exactly if that is what it leaves. -/
theorem Act.Writes.value_iff {sim : Simulator} {name : String} {w : Write} {a : Act}
    (writes : a.Writes sim name w) (v : Bytes) :
    w.value = some v ↔ ∃ tx, a = .set ⟨sim.channel, tx⟩ name w.collection w.key v := by
  cases writes with
  | set =>
    constructor
    · rintro ⟨⟩
      exact ⟨sim.tx, rfl⟩
    · rintro ⟨tx, same⟩
      rw [(Act.set.inj same).2.2.2.2]
  | delete =>
    constructor
    · intro deleted
      cases deleted
    · rintro ⟨tx, same⟩
      cases same

/-! ## What every act keeps -/

namespace Annals

variable {t : Annals} {a : Act}

/-- In every place the ledger holds what was set there last, and nothing if it was deleted since. -/
def Faithful (t : Annals) : Prop := ∀ c v, t.ledger.held c = some v ↔ LastSet t.log c v

theorem faithful_fresh : Faithful {} := by
  intro ⟨channel, name, collection, key⟩ v
  have nothing : ({} : Annals).ledger.held ⟨channel, name, collection, key⟩ = none := by
    cases collection <;> rfl
  rw [nothing]
  exact ⟨nofun, fun last => absurd last not_lastSet_nil⟩

theorem Faithful.create (faithful : t.Faithful) (channel : String) :
    Faithful ⟨t.ledger.createChannel channel, t.log ++ [.create channel]⟩ := by
  intro c v
  have elsewhere : (Act.create channel).cell? ≠ some c := Option.some_ne_none c |>.symm
  rw [lastSet_concat_of_ne elsewhere, ← faithful c v, held, held, space_createChannel]

theorem Faithful.write (faithful : t.Faithful) {l : Ledger} {sim : Simulator} {name : String}
    {w : Write} (writes : a.Writes sim name w) (changed : t.ledger.Changed l sim name w) :
    Faithful ⟨l, t.log ++ [a]⟩ := by
  intro c v
  by_cases here : c = ⟨sim.channel, name, w.collection, w.key⟩
  · subst here
    rw [lastSet_concat_iff, ← writes.value_iff v]
    refine (iff_of_eq (congrArg (· = some v) changed.value)).trans ⟨.inl, fun either => ?_⟩
    exact either.resolve_right fun other => other.1 writes.cell
  · have elsewhere : a.cell? ≠ some c := by
      rw [writes.cell]
      exact fun same => here (Option.some.inj same).symm
    rw [lastSet_concat_of_ne elsewhere, ← faithful c v]
    have other : ¬ (c.channel = sim.channel ∧ c.name = name ∧ c.collection = w.collection ∧
        c.key = w.key) := by
      rintro ⟨channel, name, collection, key⟩
      exact here (by cases c; cases channel; cases name; cases collection; cases key; rfl)
    exact iff_of_eq (congrArg (· = some v) (changed.others _ _ _ _ other))

theorem Faithful.act (faithful : t.Faithful) (a : Act) : (t.act a).Faithful := by
  cases done : t.ledger.perform? a with
  | error e => rw [act_of_error done]; exact faithful
  | ok l =>
    rw [act_of_ok done]
    rcases performed_cases done with ⟨channel, rfl, rfl⟩ | ⟨sim, name, w, writes, changed⟩
    · exact faithful.create channel
    · exact faithful.write writes changed

theorem Faithful.after (faithful : t.Faithful) (acts : List Act) : (t.after acts).Faithful := by
  induction acts generalizing t with
  | nil => exact faithful
  | cons a acts ih => exact ih (faithful.act a)

/-! ## What is read -/

/-- What is read in a place, given all that was done to the ledger. -/
structure Readings (t : Annals) (c : Cell) : Prop where
  /-- An act is carried out exactly if its channel was created and it does not set the empty
  text. -/
  performed : ∀ a, (∃ l, t.ledger.perform? a = .ok l) ↔ a.Allowed t.log
  /-- The right to read and write is given for the channels that were created. -/
  handed : ∀ tx sim, t.ledger.simulator c.channel tx = .ok sim ↔
    .create c.channel ∈ t.log ∧ sim = ⟨c.channel, tx⟩
  /-- Whoever has it reads what was set last, and nothing if there is no such value. -/
  read : .create c.channel ∈ t.log → ∃ r,
    (∀ tx, t.ledger.get ⟨c.channel, tx⟩ c.name c.collection c.key = .ok r) ∧
      ∀ v, r = some v ↔ LastSet t.log c v
  /-- Without its channel nothing can be read. -/
  missing : .create c.channel ∉ t.log → ∀ tx,
    t.ledger.get ⟨c.channel, tx⟩ c.name c.collection c.key = .error (.notFound c.channel)
  /-- A public value reads the same outside of any transaction. -/
  state : ∀ tx, c.collection = none →
    t.ledger.state c.channel c.name c.key =
      t.ledger.get ⟨c.channel, tx⟩ c.name c.collection c.key
  /-- What is done in other places leaves the place alone, and so does creating a channel once
  more. -/
  spared : ∀ a, a.cell? ≠ some c → (a = .create c.channel → .create c.channel ∈ t.log) →
    ∀ tx, (t.act a).ledger.get ⟨c.channel, tx⟩ c.name c.collection c.key =
      t.ledger.get ⟨c.channel, tx⟩ c.name c.collection c.key

/-- An act in another place leaves what is held, and creates no channel but one it is to create. -/
theorem Faithful.spared (faithful : t.Faithful) (sound : t.Sound) {c : Cell}
    (elsewhere : a.cell? ≠ some c) (old : a = .create c.channel → .create c.channel ∈ t.log) :
    (t.act a).ledger.hasChannel c.channel = t.ledger.hasChannel c.channel ∧
      (t.act a).ledger.held c = t.ledger.held c := by
  have next := faithful.act a
  cases done : t.ledger.perform? a with
  | error e => rw [act_of_error done]; exact ⟨rfl, rfl⟩
  | ok l =>
    rw [act_of_ok done] at next ⊢
    refine ⟨?_, Option.ext fun v => ?_⟩
    · have created := ((sound.act a).channels c.channel)
      rw [act_of_ok done] at created
      rw [Bool.eq_iff_iff, created, sound.channels, List.mem_append, List.mem_singleton]
      exact ⟨fun either => either.elim id fun same => old same.symm, .inl⟩
    · rw [next c v, lastSet_concat_of_ne elsewhere, faithful c v]

theorem Faithful.readings (faithful : t.Faithful) (sound : t.Sound) (c : Cell) : t.Readings c where
  performed := sound.performed_iff
  handed tx sim := by
    rw [simulator, onChannel_eq_ok_iff, sound.channels, eq_comm (a := sim)]
  read created :=
    ⟨t.ledger.held c, fun _ => onChannel_eq_ok_iff.2 ⟨(sound.channels _).2 created, rfl⟩, faithful c⟩
  missing uncreated _ := onChannel_of_missing (mt (sound.channels _).1 uncreated) _
  state tx isPublic := by
    rw [isPublic]
    rfl
  spared a elsewhere old tx := by
    obtain ⟨channels, kept⟩ := faithful.spared sound elsewhere old
    unfold held at kept
    simp only [get, onChannel, channels, kept]

/-- Whatever is done to a new ledger, what is read in a place is what was set there last, unless it
was deleted since, and nothing else that is done changes it. -/
theorem readings_of_acts (acts : List Act) (c : Cell) : (({} : Annals).after acts).Readings c :=
  (faithful_fresh.after acts).readings (sound_fresh.after acts) c

/-- The collection without a name is not the public state. -/
example : (({} : Annals).after [.create "ch", .set ⟨"ch", "t1"⟩ "cc" (some "") "k" [1],
    .set ⟨"ch", "t2"⟩ "cc" none "k" [2], .delete ⟨"ch", "t3"⟩ "cc" none "k"]).ledger.held
      ⟨"ch", "cc", some "", "k"⟩ = some [1] := by decide +kernel

end Annals

end Ledger

end ContractNode
