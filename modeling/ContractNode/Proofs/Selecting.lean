import ContractNode.Ledger.Drill
import ContractNode.Request.Kind

/-!
# What scans select

The keys of a map stand in ascending order, so that a range of keys, or the keys that begin with a
text, stand side by side. A scan finds where they begin and goes on for as long as they last, and
selects neither more nor fewer of them than a look at each key would.

* `range_eq_filter`, `beginningWith_eq_filter` : the entries that a scan of a map finds;
* `Request.selection?`, `Ledger.selected` : what a request that opens a scan selects;
* `Ledger.range_eq_selected`, `Ledger.query_eq_selected` : the ledger finds just that.
-/

namespace ContractNode

/-! ## Texts that begin with another one -/

namespace Text

theorem before_of_not_before {s t u : String} (h : ¬ Before t s) (h' : Before t u) :
    Before s u := List.lt_of_le_of_lt (List.not_lt.1 h) h'

theorem not_lt_of_isPrefixOf {q a : Bytes} (h : q.isPrefixOf a = true) : ¬ a < q := by
  intro lt
  induction q generalizing a with
  | nil => exact List.not_lt_nil _ lt
  | cons c q ih =>
    cases a with
    | nil => simp at h
    | cons d a =>
      obtain ⟨rfl, rest⟩ : c = d ∧ q.isPrefixOf a = true := by simpa using h
      rcases List.cons_lt_cons_iff.1 lt with less | ⟨_, less⟩
      · exact absurd less (by simp)
      · exact ih rest less

/-- A text between `q` and one that begins with `q` begins with `q` itself. -/
theorem isPrefixOf_of_lt {q a b : Bytes} (h : q.isPrefixOf b = true) (le : ¬ a < q) (lt : a < b) :
    q.isPrefixOf a = true := by
  induction q generalizing a b with
  | nil => rfl
  | cons c q ih =>
    obtain ⟨b, rfl⟩ : ∃ b', b = c :: b' := by
      obtain ⟨rest, rfl⟩ := List.isPrefixOf_iff_prefix.1 h
      exact ⟨q ++ rest, rfl⟩
    cases a with
    | nil => exact absurd (List.nil_lt_cons ..) le
    | cons d a =>
      rw [List.cons_lt_cons_iff] at le lt
      rcases lt with lt | ⟨rfl, lt⟩
      · exact absurd (.inl lt) le
      · have rest : q.isPrefixOf b = true := by simpa using h
        simpa using ih rest (fun less => le (.inr ⟨rfl, less⟩)) lt

theorem bytes_ofList (l : List Char) : bytes (String.ofList l) = l.utf8Encode.data.toList := by
  rw [bytes, String.toUTF8, String.toByteArray_ofList]

/-- A text that begins with another one byte by byte does so character by character. -/
theorem startsWith_iff (s q : String) : startsWith s q = true ↔ q.toList <+: s.toList := by
  rw [startsWith, List.isPrefixOf_iff_prefix]
  constructor
  · rintro ⟨rest, joined⟩
    refine List.isPrefix_of_utf8Encode_append_eq_utf8Encode ⟨rest.toArray⟩ ?_
    rw [← String.ofList_toList (s := s), ← String.ofList_toList (s := q), bytes_ofList,
      bytes_ofList] at joined
    refine ByteArray.ext (Array.ext' ?_)
    simpa using joined
  · rintro ⟨rest, joined⟩
    refine ⟨bytes (String.ofList rest), ?_⟩
    rw [← String.ofList_toList (s := s), ← joined, String.ofList_append, String.ofList_toList,
      bytes, bytes, bytes, String.toUTF8, String.toUTF8, String.toUTF8, String.toByteArray_append]
    simp

end Text

/-! ## Ascending lists -/

section Ascending

variable {β : Type} {entries : List (String × β)} {p : String → Bool}

theorem dropWhile_eq_filter (h : Ascending entries)
    (down : ∀ k k', Text.Before k k' → p k' = true → p k = true) :
    entries.dropWhile (fun e => p e.1) = entries.filter fun e => !p e.1 := by
  induction entries with
  | nil => rfl
  | cons e es ih =>
    obtain ⟨first, tail⟩ := List.pairwise_cons.1 h
    cases holds : p e.1 with
    | true => simp [holds, ih tail]
    | false =>
      have none : ∀ e' ∈ es, p e'.1 = false := fun e' mem => by
        rw [← Bool.not_eq_true]
        intro later
        rw [down _ _ (first e' mem) later] at holds
        cases holds
      have all : es.filter (fun e => !p e.1) = es :=
        List.filter_eq_self.2 fun e' mem => by simp [none e' mem]
      simp [holds, all]

theorem takeWhile_eq_filter (h : Ascending entries)
    (down : ∀ e ∈ entries, ∀ e' ∈ entries, Text.Before e.1 e'.1 → p e'.1 = true → p e.1 = true) :
    entries.takeWhile (fun e => p e.1) = entries.filter fun e => p e.1 := by
  induction entries with
  | nil => rfl
  | cons e es ih =>
    obtain ⟨first, tail⟩ := List.pairwise_cons.1 h
    cases holds : p e.1 with
    | true =>
      have rest := ih tail fun e₁ mem₁ e₂ mem₂ =>
        down e₁ (List.mem_cons_of_mem _ mem₁) e₂ (List.mem_cons_of_mem _ mem₂)
      simp [holds, rest]
    | false =>
      have none : ∀ e' ∈ es, p e'.1 = false := fun e' mem => by
        rw [← Bool.not_eq_true]
        intro later
        rw [down e List.mem_cons_self e' (List.mem_cons_of_mem _ mem) (first e' mem) later] at holds
        cases holds
      have empty : es.filter (fun e => p e.1) = [] :=
        List.filter_eq_nil_iff.2 fun e' mem => by simp [none e' mem]
      simp [holds, empty]

end Ascending

/-! ## Scans of a map -/

namespace KeyMap

variable {β : Type}

theorem dropWhile_before (m : KeyMap β) (k : String) :
    m.entries.dropWhile (fun e => decide (Text.Before e.1 k)) =
      m.entries.filter fun e => !decide (Text.Before e.1 k) :=
  dropWhile_eq_filter (p := fun j => decide (Text.Before j k)) m.ascending fun _ _ before later =>
    decide_eq_true (before.trans (of_decide_eq_true later))

theorem takeWhile_before (m : KeyMap β) (first last : String) :
    (m.entries.dropWhile fun e => decide (Text.Before e.1 first)).takeWhile
        (fun e => decide (Text.Before e.1 last)) =
      m.entries.filter fun e => decide (¬ Text.Before e.1 first ∧ Text.Before e.1 last) := by
  have ascending : Ascending (m.entries.filter fun e => !decide (Text.Before e.1 first)) :=
    m.ascending.filter _
  rw [dropWhile_before, takeWhile_eq_filter (p := fun j => decide (Text.Before j last)) ascending]
  · simp [List.filter_filter, Bool.and_comm]
  · exact fun _ _ _ _ before later => decide_eq_true (before.trans (of_decide_eq_true later))

/-- A range is made of the keys that are not before the first one and, unless the last one is empty,
before the last one. -/
theorem range?_eq_filter (m : KeyMap β) (first last : String) :
    m.range? first last = some (m.entries.filter fun e =>
      decide (¬ Text.Before e.1 first ∧ (last = "" ∨ Text.Before e.1 last))) := by
  unfold range?
  by_cases endless : last = ""
  · simp [endless, between?, dropWhile_before]
  · rw [if_neg endless]
    by_cases up : Text.Before first last
    · simp [up, between?, up.asymm, takeWhile_before, endless]
    · have nothing : ∀ e ∈ m.entries,
          ¬ (decide (¬ Text.Before e.1 first ∧ (last = "" ∨ Text.Before e.1 last)) = true) := by
        intro e _ picked
        obtain ⟨after, before⟩ := of_decide_eq_true picked
        refine up (Text.before_of_not_before after (before.resolve_left endless))
      rw [if_neg up, List.filter_eq_nil_iff.2 nothing]

theorem range_eq_filter (m : KeyMap β) (first last : String) :
    m.range first last = m.entries.filter fun e =>
      decide (¬ Text.Before e.1 first ∧ (last = "" ∨ Text.Before e.1 last)) := by
  simp only [range, range?_eq_filter, Option.get_some]

/-- A query finds the keys that begin with it. -/
theorem beginningWith_eq_filter (m : KeyMap β) (q : String) :
    m.beginningWith q = m.entries.filter fun e => Text.startsWith e.1 q := by
  unfold beginningWith
  have ascending : Ascending (m.entries.filter fun e => !decide (Text.Before e.1 q)) :=
    m.ascending.filter _
  rw [dropWhile_before, takeWhile_eq_filter (p := (Text.startsWith · q)) ascending]
  · rw [List.filter_filter]
    refine List.filter_congr fun e _ => ?_
    cases begins : Text.startsWith e.1 q with
    | true =>
      have after : ¬ Text.Before e.1 q := Text.not_lt_of_isPrefixOf begins
      simp [after]
    | false => rfl
  · intro e mem e' _ before begins
    have after : ¬ Text.Before e.1 q := by simpa using (List.mem_filter.1 mem).2
    exact Text.isPrefixOf_of_lt begins after before

end KeyMap

/-! ## Requests that open a scan -/

/-- What a request selects that opens a scan: the keys, of the public state or of a collection. -/
structure Selection where
  collection : Option String
  /-- Where the scan starts. -/
  start : String
  picks : String → Bool

def Request.selection? : Request → Option Selection
  | .range r => some
    { collection := r.collection
      start := r.first
      picks := fun k => decide (¬ Text.Before k r.first ∧ (r.last = "" ∨ Text.Before k r.last)) }
  | .query q => some
    { collection := q.collection, start := q.query, picks := fun k => Text.startsWith k q.query }
  | _ => none

/-- The entries of a namespace that are selected, in ascending order of their keys. -/
def Ledger.selected (l : Ledger) (channel name : String) (sel : Selection) : List Entry :=
  (((l.space channel name).entries sel.collection).entries.filter fun e => sel.picks e.1).map
    fun e => ⟨name, e.1, e.2⟩

/-- They stand in ascending order, each of them once. -/
theorem Ledger.ascending_selected (l : Ledger) (channel name : String) (sel : Selection) :
    (l.selected channel name sel).Pairwise fun e e' => Text.Before e.key e'.key :=
  List.pairwise_map.2 (((l.space channel name).entries sel.collection).ascending.filter _)

/-- An entry is selected if the ledger holds it and its key is picked. -/
theorem Ledger.mem_selected_iff {l : Ledger} {channel name : String} {sel : Selection} {e : Entry} :
    e ∈ l.selected channel name sel ↔ e.space = name ∧ sel.picks e.key = true ∧
      (l.space channel name).read sel.collection e.key = some e.value := by
  simp only [selected, List.mem_map, List.mem_filter, Prod.exists]
  constructor
  · rintro ⟨k, v, ⟨there, picked⟩, rfl⟩
    exact ⟨rfl, picked, KeyMap.mem_entries_iff.1 there⟩
  · rintro ⟨rfl, picked, there⟩
    exact ⟨e.key, e.value, ⟨KeyMap.mem_entries_iff.2 there, picked⟩, rfl⟩

/-- A range finds what it selects, and so does a query. -/
theorem Ledger.range_eq_selected {l : Ledger} {sim : Simulator} {q : KeyRange} {sel : Selection}
    (selects : (Request.range q).selection? = some sel)
    (there : l.hasChannel sim.channel = true) (name : String) :
    l.range sim name q.collection q.first q.last =
      .ok ((l.selected sim.channel name sel).map .entry) := by
  cases selects
  simp only [Ledger.range, onChannel, there, if_true, KeyMap.range_eq_filter, found, selected,
    List.map_map]
  rfl

theorem Ledger.query_eq_selected {l : Ledger} {sim : Simulator} {q : KeyQuery} {sel : Selection}
    (selects : (Request.query q).selection? = some sel)
    (there : l.hasChannel sim.channel = true) (name : String) :
    l.query sim name q.collection q.query =
      .ok ((l.selected sim.channel name sel).map .entry) := by
  cases selects
  simp only [Ledger.query, onChannel, there, if_true, KeyMap.beginningWith_eq_filter, found,
    selected, List.map_map]
  rfl

namespace Drill

/-- Scans from a start are ordinary ones. -/
structure Leaves (d : Drill) (start : String) : Prop where
  fails : d.fails start = false
  faults : d.readsBeforeFault? start = none

theorem cursor_of_leaves {d : Drill} {start : String} (leaves : d.Leaves start) (action : String)
    {results : String → Except LedgerError (List Found)} {found : List Found}
    (finds : results start = .ok found) :
    d.cursor action start results = .ok (Scan.ofResults found) := by
  simp only [cursor, guard, leaves.fails, leaves.faults, finds]
  rfl

end Drill

end ContractNode
