import ContractNode.Proofs.Writing

/-!
# The history of a key and its value

A ledger keeps the values of public keys and the history of each key in two places. They never
disagree.

* `Space.Current` : each public value is the one that the history of its key ends with;
* `Ledger.Act`, `Ledger.perform?` : what is done to a ledger, by whoever has the right to;
* `Ledger.Annals` : a ledger with the acts that were carried out on it;
* `Tale` : what a history tells of a change, but for its time; `Ledger.tales` is what it should
  tell of all that was done;
* `keeps_of_acts` : what the history of a key and its value are after any sequence of acts.
-/

namespace ContractNode

/-- What a history tells of a change, but for its time. -/
structure Tale where
  tx : String
  value : Bytes
  isDelete : Bool
deriving DecidableEq

def Change.tale (c : Change) : Tale := ⟨c.tx, c.value, c.isDelete⟩

def Record.tale (r : Record) : Tale := ⟨r.tx, r.value.getD [], r.value.isNone⟩

/-! ## One namespace -/

namespace Space

variable {s : Space}

/-- Each public value is the one that the history of its key ends with. -/
def Current (s : Space) : Prop :=
  ∀ key, s.read none key = (s.changes key).getLast?.bind Record.value

theorem current_empty : Current {} := fun _ => rfl

theorem Current.read_eq_some_iff (current : s.Current) {key : String} {v : Bytes} :
    s.read none key = some v ↔
      ∃ tx, ((s.changes key).map Record.tale).getLast? = some ⟨tx, v, false⟩ := by
  rw [current key, List.getLast?_map]
  cases (s.changes key).getLast? with
  | none => simp
  | some r => obtain ⟨tx, _ | v⟩ := r <;> simp [Record.tale]

theorem Current.read_eq_none_iff (current : s.Current) {key : String} :
    s.read none key = none ↔ (s.changes key).map Record.tale = [] ∨
      ∃ tx, ((s.changes key).map Record.tale).getLast? = some ⟨tx, [], true⟩ := by
  rw [current key, List.map_eq_nil_iff, ← List.getLast?_eq_none_iff, List.getLast?_map]
  cases (s.changes key).getLast? with
  | none => simp
  | some r => obtain ⟨tx, _ | v⟩ := r <;> simp [Record.tale]

end Space

/-! ## Acts -/

namespace Ledger

inductive Act
  | create (channel : String)
  | set (sim : Simulator) (name : String) (collection : Option String) (key : String) (v : Bytes)
  | delete (sim : Simulator) (name : String) (collection : Option String) (key : String)
deriving DecidableEq

/-- The ledger after an act, or why the act is refused. -/
def perform? (l : Ledger) : Act → Except LedgerError Ledger
  | .create channel => .ok (l.createChannel channel)
  | .set sim name collection key v => l.set sim name collection key v
  | .delete sim name collection key => l.delete sim name collection key

/-- A ledger together with the acts that were carried out on it, the oldest first. -/
structure Annals where
  ledger : Ledger := {}
  log : List Act := []

namespace Annals

/-- An act that is refused changes nothing. -/
def act (t : Annals) (a : Act) : Annals :=
  match t.ledger.perform? a with
  | .error _ => t
  | .ok l => ⟨l, t.log ++ [a]⟩

def after (t : Annals) (acts : List Act) : Annals := acts.foldl act t

end Annals

/-- Whether an act is carried out after others: its channel has to exist, and the empty text is no
key to set. -/
def Act.Allowed (log : List Act) : Act → Prop
  | .create _ => True
  | .set sim _ _ key _ => key ≠ "" ∧ .create sim.channel ∈ log
  | .delete sim _ _ _ => .create sim.channel ∈ log

/-- What the history of a public key should tell of an act. -/
def Act.tale? (channel name key : String) : Act → Option Tale
  | .set sim name' none key' v =>
    if sim.channel = channel ∧ name' = name ∧ key' = key then some ⟨sim.tx, v, false⟩ else none
  | .delete sim name' none key' =>
    if sim.channel = channel ∧ name' = name ∧ key' = key then some ⟨sim.tx, [], true⟩ else none
  | .create _ | .set _ _ (some _) _ _ | .delete _ _ (some _) _ => none

/-- What the history of a public key should tell of all that was done. -/
def tales (channel name key : String) (log : List Act) : List Tale :=
  log.filterMap (Act.tale? channel name key)

/-! ## What an act does -/

inductive Act.Writes (sim : Simulator) (name : String) : Write → Act → Prop
  | set {c : Option String} {key : String} {v : Bytes} :
      Writes sim name ⟨c, key, some v⟩ (.set sim name c key v)
  | delete {c : Option String} {key : String} :
      Writes sim name ⟨c, key, none⟩ (.delete sim name c key)

theorem Act.Writes.tale {sim : Simulator} {name : String} {w : Write} {a : Act}
    (writes : a.Writes sim name w) (channel' name' key' : String) :
    a.tale? channel' name' key' =
      if channel' = sim.channel ∧ name' = name ∧ w.collection = none ∧ key' = w.key then
        some (Record.tale ⟨sim.tx, w.value⟩) else none := by
  cases writes with
  | @set c => cases c <;> simp [Act.tale?, Record.tale, eq_comm]
  | @delete c => cases c <;> simp [Act.tale?, Record.tale, eq_comm]

theorem Act.Writes.ne_create {sim : Simulator} {name : String} {w : Write} {a : Act}
    (writes : a.Writes sim name w) (channel : String) : a ≠ .create channel := by
  cases writes <;> nofun

/-- An act that is carried out creates a channel, or makes one write. -/
theorem performed_cases {l l' : Ledger} {a : Act} (done : l.perform? a = .ok l') :
    (∃ channel, a = .create channel ∧ l' = l.createChannel channel) ∨
    ∃ sim name w, a.Writes sim name w ∧ l.Changed l' sim name w := by
  cases a with
  | create channel =>
    cases done
    exact .inl ⟨channel, rfl, rfl⟩
  | set sim name c key v =>
    exact .inr ⟨sim, name, _, .set, changed_of_set done⟩
  | delete sim name c key =>
    exact .inr ⟨sim, name, _, .delete, changed_of_delete done⟩

/-- An act that the history of a key does not tell of leaves the key as it is, unless it creates
its channel. -/
theorem alone_of_performed {l l' : Ledger} {a : Act} {channel name key : String}
    (done : l.perform? a = .ok l') (elsewhere : a.tale? channel name key = none)
    (old : a = .create channel → l.hasChannel channel = true) :
    l'.hasChannel channel = l.hasChannel channel ∧
      (l'.space channel name).changes key = (l.space channel name).changes key ∧
        (l'.space channel name).read none key = (l.space channel name).read none key := by
  rcases performed_cases done with ⟨channel', rfl, rfl⟩ | ⟨sim, name', w, writes, changed⟩
  · refine ⟨?_, by rw [space_createChannel], by rw [space_createChannel]⟩
    rw [hasChannel_createChannel]
    by_cases same : channel' = channel
    · simp [same, old (same ▸ rfl)]
    · simp [same]
  · rw [writes.tale, ite_eq_right_iff] at elsewhere
    have apart : ¬(channel = sim.channel ∧ name = name' ∧ w.collection = none ∧ key = w.key) :=
      fun all => nomatch elsewhere all
    refine ⟨changed.channels channel, ?_, changed.others _ _ _ _ fun all => ?_⟩
    · rw [changed.history, if_neg apart, List.append_nil]
    · exact apart ⟨all.1, all.2.1, all.2.2.1.symm, all.2.2.2⟩

/-! ## What every act keeps -/

namespace Annals

variable {t : Annals} {a : Act}

/-- What the ledger holds is what its log tells. -/
structure Sound (t : Annals) : Prop where
  channels : ∀ channel, t.ledger.hasChannel channel = true ↔ .create channel ∈ t.log
  changes : ∀ channel name key, ((t.ledger.space channel name).changes key).map Record.tale =
    tales channel name key t.log
  current : ∀ channel name, (t.ledger.space channel name).Current

theorem sound_fresh : Sound {} := by
  refine ⟨fun channel => ?_, fun _ _ _ => rfl, fun _ _ => Space.current_empty⟩
  simp [hasChannel, KeyMap.contains]

theorem tales_concat (channel name key : String) (log : List Act) (a : Act) :
    tales channel name key (log ++ [a]) =
      tales channel name key log ++ (a.tale? channel name key).toList := by
  rw [tales, List.filterMap_append]
  cases told : a.tale? channel name key <;> simp [tales, told]

theorem Sound.create (sound : t.Sound) (channel : String) :
    Sound ⟨t.ledger.createChannel channel, t.log ++ [.create channel]⟩ := by
  refine ⟨fun channel' => ?_, fun channel' name key => ?_, fun channel' name => ?_⟩
  · rw [hasChannel_createChannel, Bool.or_eq_true, decide_eq_true_iff, sound.channels]
    simp [or_comm, eq_comm]
  · rw [space_createChannel, sound.changes, tales_concat]
    exact (List.append_nil _).symm
  · rw [space_createChannel]
    exact sound.current channel' name

theorem Sound.write (sound : t.Sound) {l : Ledger} {sim : Simulator} {name : String} {w : Write}
    (writes : a.Writes sim name w) (changed : t.ledger.Changed l sim name w) :
    Sound ⟨l, t.log ++ [a]⟩ := by
  refine ⟨fun channel' => ?_, fun channel' name' key' => ?_, fun channel' name' key' => ?_⟩
  · rw [changed.channels, sound.channels, List.mem_append, List.mem_singleton]
    exact ⟨.inl, fun created => created.resolve_right (writes.ne_create channel').symm⟩
  · rw [changed.history, List.map_append, sound.changes, tales_concat, writes.tale]
    split <;> rfl
  · rw [changed.history]
    by_cases here : channel' = sim.channel ∧ name' = name ∧ w.collection = none ∧ key' = w.key
    · rw [if_pos here, List.getLast?_concat]
      obtain ⟨rfl, rfl, shown, rfl⟩ := here
      exact shown ▸ changed.value
    · rw [if_neg here, List.append_nil, ← sound.current channel' name' key']
      exact changed.others _ _ _ _ fun all => here ⟨all.1, all.2.1, all.2.2.1.symm, all.2.2.2⟩

theorem Sound.act (sound : t.Sound) (a : Act) : (t.act a).Sound := by
  unfold Annals.act
  split
  · exact sound
  · rename_i l done
    rcases performed_cases done with ⟨channel, rfl, rfl⟩ | ⟨sim, name, w, writes, changed⟩
    · exact sound.create channel
    · exact sound.write writes changed

theorem Sound.after (sound : t.Sound) (acts : List Act) : (t.after acts).Sound := by
  induction acts generalizing t with
  | nil => exact sound
  | cons a acts ih => exact ih (sound.act a)

theorem Sound.performed_iff (sound : t.Sound) (a : Act) :
    (∃ l, t.ledger.perform? a = .ok l) ↔ a.Allowed t.log := by
  cases a with
  | create channel => exact ⟨fun _ => trivial, fun _ => ⟨_, rfl⟩⟩
  | set sim name c key v =>
    simp only [perform?, Ledger.set, Act.Allowed, ← sound.channels]
    split
    · rename_i empty
      exact ⟨nofun, fun allowed => absurd empty allowed.1⟩
    · rename_i named
      simp [onChannel_eq_ok_iff, named]
  | delete sim name c key =>
    simp [perform?, Ledger.delete, Act.Allowed, ← sound.channels, onChannel_eq_ok_iff]

theorem onChannel_of_missing {α : Type} {l : Ledger} {channel : String}
    (missing : ¬l.hasChannel channel = true) (x : α) :
    l.onChannel channel x = .error (.notFound channel) := if_neg missing

theorem space_of_missing {l : Ledger} {channel : String} (missing : ¬l.hasChannel channel = true)
    (name : String) : l.space channel name = {} := by
  have none : l.channels.get? channel = none := by
    simpa [hasChannel, KeyMap.contains] using missing
  rw [space, none]
  rfl

theorem Sound.history_eq (sound : t.Sound) {channel : String}
    (created : .create channel ∈ t.log) (name key : String) :
    ∃ told : List Change, t.ledger.history ⟨channel⟩ name key = .ok (told.map .change) ∧
      told.map Change.tale = tales channel name key t.log := by
  refine ⟨((t.ledger.space channel name).changes key).mapIdx fun i r => r.change i, ?_, ?_⟩
  · refine onChannel_eq_ok_iff.2 ⟨(sound.channels channel).2 created, ?_⟩
    simp only [List.mapIdx_eq_zipIdx_map, List.map_map, Function.comp_def]
  · rw [← sound.changes, List.mapIdx_eq_zipIdx_map, List.map_map]
    -- the place of a change in the history decides its time only
    conv => rhs; rw [← List.zipIdx_map_fst 0 ((t.ledger.space channel name).changes key)]
    rw [List.map_map]
    rfl

/-! ## What the history and the value of a key tell -/

/-- What holds of a key, given all that was done to its ledger. -/
structure Keeps (t : Annals) (channel name key : String) : Prop where
  /-- An act is carried out exactly if its channel was created and it does not set the empty
  text. -/
  performed : ∀ a, (∃ l, t.ledger.perform? a = .ok l) ↔ a.Allowed t.log
  /-- The history of the key lists what was done to it, in that order. -/
  history : .create channel ∈ t.log → ∃ told : List Change,
    t.ledger.history ⟨channel⟩ name key = .ok (told.map .change) ∧
      told.map Change.tale = tales channel name key t.log
  /-- The key has a value exactly if that is what was set last. -/
  present : .create channel ∈ t.log → ∀ v, t.ledger.state channel name key = .ok (some v) ↔
    ∃ tx, (tales channel name key t.log).getLast? = some ⟨tx, v, false⟩
  /-- The key has no value exactly if nothing was done to it, or it was deleted last. -/
  absent : .create channel ∈ t.log → (t.ledger.state channel name key = .ok none ↔
    tales channel name key t.log = [] ∨
      ∃ tx, (tales channel name key t.log).getLast? = some ⟨tx, [], true⟩)
  /-- Without its channel the key has neither. -/
  missing : .create channel ∉ t.log →
    t.ledger.history ⟨channel⟩ name key = .error (.notFound channel) ∧
      t.ledger.state channel name key = .error (.notFound channel) ∧
        tales channel name key t.log = []
  /-- Every transaction reads the value. -/
  read : ∀ tx, t.ledger.get ⟨channel, tx⟩ name none key = t.ledger.state channel name key
  /-- What is refused or done elsewhere, in private for instance, leaves the key alone, and so does
  creating a channel once more. -/
  spared : ∀ a, (¬a.Allowed t.log ∨ a.tale? channel name key = none) →
    (a = .create channel → .create channel ∈ t.log) →
    (t.act a).ledger.history ⟨channel⟩ name key = t.ledger.history ⟨channel⟩ name key ∧
      (t.act a).ledger.state channel name key = t.ledger.state channel name key

theorem act_of_error {e : LedgerError} (refused : t.ledger.perform? a = .error e) :
    t.act a = t := by rw [Annals.act, refused]

theorem act_of_ok {l : Ledger} (done : t.ledger.perform? a = .ok l) :
    t.act a = ⟨l, t.log ++ [a]⟩ := by rw [Annals.act, done]

theorem Sound.spared (sound : t.Sound) {channel name key : String}
    (elsewhere : ¬a.Allowed t.log ∨ a.tale? channel name key = none)
    (old : a = .create channel → .create channel ∈ t.log) :
    (t.act a).ledger.history ⟨channel⟩ name key = t.ledger.history ⟨channel⟩ name key ∧
      (t.act a).ledger.state channel name key = t.ledger.state channel name key := by
  cases done : t.ledger.perform? a with
  | error e => rw [act_of_error done]; exact ⟨rfl, rfl⟩
  | ok l =>
    have allowed := (sound.performed_iff a).1 ⟨l, done⟩
    obtain ⟨channels, changes, read⟩ :=
      alone_of_performed done (elsewhere.resolve_left fun not => not allowed)
        fun creates => (sound.channels channel).2 (old creates)
    simp only [act_of_ok done, Ledger.history, Ledger.state, onChannel, channels, changes, read,
      and_self]

theorem Sound.keeps (sound : t.Sound) (channel name key : String) : t.Keeps channel name key where
  performed := sound.performed_iff
  history created := sound.history_eq created name key
  present created v := by
    rw [← sound.changes, ← (sound.current channel name).read_eq_some_iff, Ledger.state,
      onChannel_eq_ok_iff, and_iff_right ((sound.channels channel).2 created)]
  absent created := by
    rw [← sound.changes, ← (sound.current channel name).read_eq_none_iff, Ledger.state,
      onChannel_eq_ok_iff, and_iff_right ((sound.channels channel).2 created)]
  missing uncreated := by
    have missing := mt (sound.channels channel).1 uncreated
    refine ⟨onChannel_of_missing missing _, onChannel_of_missing missing _, ?_⟩
    rw [← sound.changes, space_of_missing missing]
    rfl
  read _ := rfl
  spared _ := sound.spared

/-- Whatever is done to a new ledger, the history of a key and its value are what was done to the
key makes them. -/
theorem keeps_of_acts (acts : List Act) (channel name key : String) :
    (({} : Annals).after acts).Keeps channel name key :=
  (sound_fresh.after acts).keeps channel name key

end Annals

end Ledger

end ContractNode
