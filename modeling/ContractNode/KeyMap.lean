import ContractNode.Text

/-!
# Maps from texts, kept in key order

* `KeyMap β` : a finite map from texts to `β`, its entries in strictly ascending byte order of
  the keys, so that two maps with the same lookups are equal (`eq_of_get?_eq`);
* `get?`, `insert`, `erase`, `alter` and the lookups after each of them (`get?_insert`,
  `get?_erase`, `get?_alter`); the entries are the keys with their values (`mem_entries_iff`);
* `between?` : the entries between two keys, which must not be given the wrong way round;
* `range?`, `range` : the entries from a first key up to, but not including, a last one, whichever
  way round they are given (`isSome_range?`);
* `beginningWith` : the entries whose keys begin with a given text, found by one scan that starts
  at that text and stops at the first key that does not.
-/

namespace ContractNode

/-- The entries of a map are in strictly ascending order of their keys. -/
abbrev Ascending {β : Type} (entries : List (String × β)) : Prop :=
  entries.Pairwise fun a b => Text.Before a.1 b.1

/-- A finite map from texts to `β`. -/
structure KeyMap (β : Type) where
  entries : List (String × β)
  ascending : Ascending entries
deriving DecidableEq

namespace KeyMap

variable {β γ : Type}

/-! ## Entry lists -/

def find? (k : String) : List (String × β) → Option β
  | [] => none
  | (k', v) :: rest => if k' = k then some v else find? k rest

/-- Puts an entry at its place, in the stead of one with the same key. -/
def place (k : String) (v : β) : List (String × β) → List (String × β)
  | [] => [(k, v)]
  | (k', v') :: rest =>
    if Text.Before k k' then (k, v) :: (k', v') :: rest
    else if k' = k then (k, v) :: rest
    else (k', v') :: place k v rest

def remove (k : String) : List (String × β) → List (String × β)
  | [] => []
  | (k', v') :: rest => if k' = k then rest else (k', v') :: remove k rest

theorem mem_place {k : String} {v : β} {e : String × β} {entries : List (String × β)}
    (h : e ∈ place k v entries) : e = (k, v) ∨ e ∈ entries := by
  induction entries with
  | nil => simpa [place] using h
  | cons head rest ih =>
    obtain ⟨k', v'⟩ := head
    rw [place] at h
    split at h
    · simpa using h
    · split at h
      · simp only [List.mem_cons] at h ⊢
        exact h.imp id .inr
      · simp only [List.mem_cons] at h ⊢
        rcases h with h | h
        · exact .inr (.inl h)
        · exact (ih h).imp id .inr

theorem mem_of_mem_remove {k : String} {e : String × β} {entries : List (String × β)}
    (h : e ∈ remove k entries) : e ∈ entries := by
  induction entries with
  | nil => exact h
  | cons head rest ih =>
    rw [remove] at h
    split at h
    · exact List.mem_cons_of_mem _ h
    · rcases List.mem_cons.1 h with h | h
      · exact h ▸ List.mem_cons_self
      · exact List.mem_cons_of_mem _ (ih h)

theorem ascending_place (k : String) (v : β) {entries : List (String × β)}
    (h : Ascending entries) : Ascending (place k v entries) := by
  induction entries with
  | nil => simp [place, Ascending]
  | cons head rest ih =>
    obtain ⟨k', v'⟩ := head
    obtain ⟨first, tail⟩ := List.pairwise_cons.1 h
    rw [place]
    split
    · rename_i before
      refine List.pairwise_cons.2 ⟨fun e he => ?_, h⟩
      rcases List.mem_cons.1 he with rfl | he
      · exact before
      · exact before.trans (first e he)
    · rename_i before
      split
      · rename_i same
        exact List.pairwise_cons.2 ⟨fun e he => same ▸ first e he, tail⟩
      · rename_i different
        refine List.pairwise_cons.2 ⟨fun e he => ?_, ih tail⟩
        rcases mem_place he with rfl | he
        · by_cases after : Text.Before k' k
          · exact after
          · exact absurd (Text.eq_of_not_before after before) different
        · exact first e he

theorem ascending_remove (k : String) {entries : List (String × β)}
    (h : Ascending entries) : Ascending (remove k entries) := by
  induction entries with
  | nil => exact h
  | cons head rest ih =>
    obtain ⟨first, tail⟩ := List.pairwise_cons.1 h
    rw [remove]
    split
    · exact tail
    · exact List.pairwise_cons.2 ⟨fun e he => first e (mem_of_mem_remove he), ih tail⟩

theorem find?_eq_none {k : String} {entries : List (String × β)}
    (h : ∀ e ∈ entries, e.1 ≠ k) : find? k entries = none := by
  induction entries with
  | nil => rfl
  | cons head rest ih =>
    rw [find?, if_neg (h head List.mem_cons_self)]
    exact ih fun e he => h e (List.mem_cons_of_mem _ he)

theorem find?_place (k j : String) (v : β) (entries : List (String × β)) :
    find? j (place k v entries) = if k = j then some v else find? j entries := by
  induction entries with
  | nil => simp [place, find?]
  | cons head rest ih =>
    obtain ⟨k', v'⟩ := head
    rw [place]
    split
    · simp [find?]
    · split
      · rename_i same
        subst same
        by_cases h : k' = j <;> simp [find?, h]
      · rename_i different
        rw [find?, ih, find?]
        by_cases h : k' = j
        · have : k ≠ j := fun e => different (h.trans e.symm)
          simp [h, this]
        · simp [h]

theorem find?_remove (k j : String) {entries : List (String × β)} (h : Ascending entries) :
    find? j (remove k entries) = if k = j then none else find? j entries := by
  induction entries with
  | nil => simp [remove, find?]
  | cons head rest ih =>
    obtain ⟨k', v'⟩ := head
    obtain ⟨first, tail⟩ := List.pairwise_cons.1 h
    rw [remove]
    split
    · rename_i same
      subst same
      by_cases e : k' = j
      · subst e
        simp only [if_true]
        exact find?_eq_none fun e he same => Text.Before.irrefl k' (same ▸ first e he)
      · simp [find?, e]
    · rename_i different
      rw [find?, ih tail, find?]
      by_cases e : k' = j
      · have : k ≠ j := fun e' => different (e.trans e'.symm)
        simp [e, this]
      · simp [e]

theorem find?_eq_some_iff {k : String} {v : β} {entries : List (String × β)}
    (h : Ascending entries) : find? k entries = some v ↔ (k, v) ∈ entries := by
  induction entries with
  | nil => simp [find?]
  | cons head rest ih =>
    obtain ⟨k', v'⟩ := head
    obtain ⟨first, tail⟩ := List.pairwise_cons.1 h
    rw [find?]
    split
    · rename_i same
      subst same
      have absent : (k', v) ∉ rest := fun mem => Text.Before.irrefl k' (first _ mem)
      simp [absent, eq_comm]
    · rename_i different
      rw [ih tail]
      simp [Ne.symm different]

/-- Ascending lists with the same entries are the same list. -/
theorem eq_of_mem_iff {as bs : List (String × β)} (ha : Ascending as) (hb : Ascending bs)
    (h : ∀ e, e ∈ as ↔ e ∈ bs) : as = bs := by
  induction as generalizing bs with
  | nil =>
    cases bs with
    | nil => rfl
    | cons b bs => exact absurd ((h b).2 List.mem_cons_self) List.not_mem_nil
  | cons a as ih =>
    cases bs with
    | nil => exact absurd ((h a).1 List.mem_cons_self) List.not_mem_nil
    | cons b bs =>
      obtain ⟨firstA, tailA⟩ := List.pairwise_cons.1 ha
      obtain ⟨firstB, tailB⟩ := List.pairwise_cons.1 hb
      have same : a = b := by
        rcases List.mem_cons.1 ((h a).1 List.mem_cons_self) with same | inB
        · exact same
        · rcases List.mem_cons.1 ((h b).2 List.mem_cons_self) with same | inA
          · exact same.symm
          · exact absurd ((firstA b inA).trans (firstB a inB)) (Text.Before.irrefl a.1)
      subst same
      refine congrArg (a :: ·) (ih tailA tailB fun e => ⟨fun he => ?_, fun he => ?_⟩)
      · rcases List.mem_cons.1 ((h e).1 (List.mem_cons_of_mem a he)) with same | inB
        · exact absurd (same ▸ firstA e he) (Text.Before.irrefl a.1)
        · exact inB
      · rcases List.mem_cons.1 ((h e).2 (List.mem_cons_of_mem a he)) with same | inA
        · exact absurd (same ▸ firstB e he) (Text.Before.irrefl a.1)
        · exact inA

/-! ## The map -/

def empty : KeyMap β := ⟨[], List.Pairwise.nil⟩

instance : EmptyCollection (KeyMap β) := ⟨empty⟩

instance : Inhabited (KeyMap β) := ⟨empty⟩

def get? (m : KeyMap β) (k : String) : Option β := find? k m.entries

def contains (m : KeyMap β) (k : String) : Bool := (m.get? k).isSome

def insert (m : KeyMap β) (k : String) (v : β) : KeyMap β :=
  ⟨place k v m.entries, ascending_place k v m.ascending⟩

def erase (m : KeyMap β) (k : String) : KeyMap β :=
  ⟨remove k m.entries, ascending_remove k m.ascending⟩

/-- Replaces the value of a key, if it has one, by what `f` makes of it. -/
def alter (m : KeyMap β) (k : String) (f : Option β → β) : KeyMap β :=
  m.insert k (f (m.get? k))

def keys (m : KeyMap β) : List String := m.entries.map Prod.fst

@[simp] theorem get?_empty (k : String) : (∅ : KeyMap β).get? k = none := rfl

theorem get?_insert (m : KeyMap β) (k j : String) (v : β) :
    (m.insert k v).get? j = if k = j then some v else m.get? j :=
  find?_place k j v m.entries

theorem get?_erase (m : KeyMap β) (k j : String) :
    (m.erase k).get? j = if k = j then none else m.get? j :=
  find?_remove k j m.ascending

theorem get?_alter (m : KeyMap β) (k j : String) (f : Option β → β) :
    (m.alter k f).get? j = if k = j then some (f (m.get? k)) else m.get? j :=
  get?_insert m k j _

@[simp] theorem get?_insert_self (m : KeyMap β) (k : String) (v : β) :
    (m.insert k v).get? k = some v := by simp [get?_insert]

@[simp] theorem get?_erase_self (m : KeyMap β) (k : String) : (m.erase k).get? k = none := by
  simp [get?_erase]

theorem mem_entries_iff {m : KeyMap β} {k : String} {v : β} :
    (k, v) ∈ m.entries ↔ m.get? k = some v := (find?_eq_some_iff m.ascending).symm

/-- Two maps with the same values are the same map. -/
theorem eq_of_get?_eq {m m' : KeyMap β} (h : ∀ k, m.get? k = m'.get? k) : m = m' := by
  have same : m.entries = m'.entries :=
    eq_of_mem_iff m.ascending m'.ascending fun (k, v) => by
      rw [mem_entries_iff, mem_entries_iff, h]
  cases m; cases m'; cases same; rfl

theorem contains_iff {m : KeyMap β} {k : String} :
    m.contains k = true ↔ ∃ v, m.get? k = some v := by
  simp [contains, Option.isSome_iff_exists]

theorem contains_eq_false_iff {m : KeyMap β} {k : String} :
    m.contains k = false ↔ m.get? k = none := by
  simp [contains]

@[simp] theorem contains_insert (m : KeyMap β) (k j : String) (v : β) :
    (m.insert k v).contains j = (decide (k = j) || m.contains j) := by
  by_cases h : k = j <;> simp [contains, get?_insert, h]

/-! ## Scans -/

/-- The entries from a first key up to, but not including, a last one if there is one. A map cannot
be searched backwards, from a key to one before it. -/
def between? (m : KeyMap β) (first : String) (last : Option String) :
    Option (List (String × β)) :=
  let after := m.entries.dropWhile fun e => decide (Text.Before e.1 first)
  match last with
  | none => some after
  | some last =>
    if Text.Before last first then none
    else some (after.takeWhile fun e => decide (Text.Before e.1 last))

/-- The entries whose key is not before `first` and, unless `last` is empty, before `last`. Where
`last` is not after `first` there are none, and the map is not searched. -/
def range? (m : KeyMap β) (first last : String) : Option (List (String × β)) :=
  if last = "" then m.between? first none
  else if Text.Before first last then m.between? first (some last)
  else some []

/-- So a range is never searched for backwards. -/
theorem isSome_range? (m : KeyMap β) (first last : String) :
    (m.range? first last).isSome = true := by
  unfold range?
  split
  · rfl
  · split
    · rename_i up
      simp only [between?, if_neg up.asymm, Option.isSome_some]
    · rfl

def range (m : KeyMap β) (first last : String) : List (String × β) :=
  (m.range? first last).get (m.isSome_range? first last)

/-- The entries whose key begins with `q`: from the first key that is not before `q`, for as long
as the keys begin with it. -/
def beginningWith (m : KeyMap β) (q : String) : List (String × β) :=
  (m.entries.dropWhile fun e => decide (Text.Before e.1 q)).takeWhile fun e =>
    Text.startsWith e.1 q

end KeyMap

end ContractNode
