import ContractNode.Proofs.Cursors

/-!
# Cursors and what was read ahead from them, in step

Cursors of a transaction are opened, read, closed one by one or closed together, in any order, and
any read or close may fail. The open cursors and the batches that were read ahead stay in step.

* `CursorOp`, `CursorTable.after`, `CursorTable.afterAll` : what is done to the cursors of a
  transaction, and what it leaves;
* `Recorded` : a source with a record of what was done with it, in order;
* `CursorTable.Matched` : the cursors and batches are in step, and each cursor was closed as often as
  it should;
* `matched_openCursor`, `matched_advance`, `matched_close`, `matched_closeAll` : it stays so;
* `matched_of_ops` : so it is after any operations.
-/

namespace ContractNode

namespace KeyMap

variable {β : Type}

theorem nodup_keys (m : KeyMap β) : m.keys.Nodup := by
  show (m.entries.map Prod.fst).Nodup
  apply List.pairwise_map.2
  apply m.ascending.imp
  intro a b before same
  rw [same] at before
  exact Text.Before.irrefl _ before

theorem mem_keys_iff {m : KeyMap β} {k : String} : k ∈ m.keys ↔ ∃ v, m.get? k = some v := by
  constructor
  · intro mem
    obtain ⟨⟨k', v⟩, entry, rfl⟩ := List.mem_map.1 mem
    exact ⟨v, mem_entries_iff.1 entry⟩
  · rintro ⟨v, found⟩
    exact List.mem_map.2 ⟨(k, v), mem_entries_iff.2 found, rfl⟩

theorem keys_insert_of_some {m : KeyMap β} {k : String} {v : β} (found : m.get? k = some v)
    (v' : β) : (m.insert k v').keys.Perm m.keys := by
  apply (List.perm_ext_iff_of_nodup (nodup_keys _) (nodup_keys _)).2
  intro j
  rw [mem_keys_iff, mem_keys_iff, get?_insert]
  split
  · rename_i same
    rw [← same, found]
    exact ⟨fun _ => ⟨v, rfl⟩, fun _ => ⟨v', rfl⟩⟩
  · exact Iff.rfl

theorem keys_insert_of_none {m : KeyMap β} {k : String} (none : m.get? k = none) (v : β) :
    (m.insert k v).keys.Perm (k :: m.keys) := by
  have absent : k ∉ m.keys := by
    intro mem
    obtain ⟨v', found⟩ := mem_keys_iff.1 mem
    rw [none] at found
    cases found
  apply (List.perm_ext_iff_of_nodup (nodup_keys _) (List.nodup_cons.2 ⟨absent, nodup_keys m⟩)).2
  intro j
  rw [List.mem_cons, mem_keys_iff, mem_keys_iff, get?_insert]
  split
  · rename_i same
    exact ⟨fun _ => .inl same.symm, fun _ => ⟨v, rfl⟩⟩
  · rename_i different
    exact ⟨.inr, fun h => h.resolve_left (Ne.symm different)⟩

theorem keys_erase_of_some {m : KeyMap β} {k : String} {v : β} (found : m.get? k = some v) :
    m.keys.Perm (k :: (m.erase k).keys) := by
  have absent : k ∉ (m.erase k).keys := by
    intro mem
    obtain ⟨v', found'⟩ := mem_keys_iff.1 mem
    rw [get?_erase_self] at found'
    cases found'
  apply (List.perm_ext_iff_of_nodup (nodup_keys _) (List.nodup_cons.2 ⟨absent, nodup_keys _⟩)).2
  intro j
  rw [List.mem_cons, mem_keys_iff, mem_keys_iff, get?_erase]
  split
  · rename_i same
    exact ⟨fun _ => .inl same.symm, fun _ => ⟨v, same ▸ found⟩⟩
  · rename_i different
    exact ⟨.inr, fun h => h.resolve_left (Ne.symm different)⟩

end KeyMap

/-! ## What is done to cursors -/

/-- What is done to the cursors of a transaction. -/
inductive CursorOp (σ : Type)
  | openCursor (id : String) (source : σ)
  | advance (id : String)
  | close (id : String)
  | closeAll

def CursorOp.opened? {σ : Type} : CursorOp σ → Option String
  | .openCursor id _ => some id
  | _ => none

namespace CursorTable

variable {σ : Type} [Source σ]

def after (max : Nat) (t : CursorTable σ) : CursorOp σ → CursorTable σ
  | .openCursor id source => (t.openCursor max id source).2
  | .advance id => (t.advance max id).2
  | .close id => t.close id
  | .closeAll => t.closeAll

/-- The cursors after one thing after another was done to them. -/
def afterAll (max : Nat) (t : CursorTable σ) (ops : List (CursorOp σ)) : CursorTable σ :=
  ops.foldl (after max) t

end CursorTable

/-! ## Sources with a record -/

inductive Use
  | read
  | close
deriving DecidableEq, Repr

/-- A source with a record of what was done with it, in order. -/
structure Recorded (σ : Type) where
  source : σ
  uses : List Use := []

instance {σ : Type} [Source σ] : Source (Recorded σ) where
  next s := ((Source.next s.source).1, ⟨(Source.next s.source).2, s.uses ++ [.read]⟩)
  close s := ((Source.close s.source).1, ⟨(Source.close s.source).2, s.uses ++ [.close]⟩)

/-- The same operation. If it opens a cursor, the record of its source begins with it. -/
def CursorOp.recorded {σ : Type} : CursorOp σ → CursorOp (Recorded σ)
  | .openCursor id source => .openCursor id { source }
  | .advance id => .advance id
  | .close id => .close id
  | .closeAll => .closeAll

namespace Cursor

variable {σ : Type}

/-- A cursor was read, and nothing else was done with its source. -/
def Unclosed (c : Cursor (Recorded σ)) : Prop :=
  c.closes = 0 ∧ c.source.uses = List.replicate c.reads .read

/-- A cursor was read, then it was closed, and nothing was done with its source after that. -/
def Closed (c : Cursor (Recorded σ)) : Prop :=
  c.closes = 1 ∧ c.source.uses = List.replicate c.reads .read ++ [.close]

variable [Source σ]

theorem Unclosed.next {c : Cursor (Recorded σ)} (h : c.Unclosed) : c.next.2.Unclosed := by
  obtain ⟨closes, uses⟩ := h
  refine ⟨closes, ?_⟩
  show c.source.uses ++ [.read] = List.replicate (c.reads + 1) .read
  rw [uses, ← List.replicate_succ']

theorem Unclosed.close {c : Cursor (Recorded σ)} (h : c.Unclosed) : c.close.Closed := by
  obtain ⟨closes, uses⟩ := h
  refine ⟨?_, ?_⟩
  · show c.closes + 1 = 1
    rw [closes]
  · show c.source.uses ++ [.close] = List.replicate c.reads .read ++ [.close]
    rw [uses]

end Cursor

namespace CursorTable

variable {σ : Type} {max : Nat} {ids : List String} {t : CursorTable (Recorded σ)}

/-- The cursors that were opened under some identifiers, and what was read ahead from them, are in
step: there is a batch for each open cursor and for no other; a batch counts its results, which are
no more than a page takes; each identifier is that of one cursor, which is open and was never closed
or was closed once; no cursor was read after it was closed. -/
structure Matched (max : Nat) (ids : List String) (t : CursorTable (Recorded σ)) : Prop where
  paired : ∀ id, t.cursors.contains id = t.batches.contains id
  counted : ∀ id b, t.batches.get? id = some b → b.count = b.results.length ∧ b.count ≤ max
  opened : ids.Perm (t.cursors.keys ++ t.retired.map Prod.fst)
  unclosed : ∀ id c, t.cursors.get? id = some c → c.Unclosed
  closed : ∀ e ∈ t.retired, e.2.Closed

namespace Matched

theorem empty : Matched max [] ({} : CursorTable (Recorded σ)) where
  paired _ := rfl
  counted id b found := by cases found
  opened := List.Perm.refl []
  unclosed id c found := by cases found
  closed e mem := by cases mem

/-- A cursor under a new identifier is not open. -/
theorem get?_of_fresh (h : t.Matched max ids) {id : String} (fresh : id ∉ ids) :
    t.cursors.get? id = none := by
  cases found : t.cursors.get? id with
  | none => rfl
  | some c =>
    have mem : id ∈ t.cursors.keys ++ t.retired.map Prod.fst :=
      List.mem_append_left _ (KeyMap.mem_keys_iff.2 ⟨c, found⟩)
    exact absurd (h.opened.mem_iff.2 mem) fresh

theorem insert (h : t.Matched max ids) {id : String} {c : Cursor (Recorded σ)} {b : Batch}
    (unclosed : c.Unclosed) (counted : b.count = b.results.length ∧ b.count ≤ max)
    {ids' : List String}
    (opened : ids'.Perm ((t.cursors.insert id c).keys ++ t.retired.map Prod.fst)) :
    Matched max ids'
      { t with cursors := t.cursors.insert id c, batches := t.batches.insert id b } where
  paired j := by
    show (t.cursors.insert id c).contains j = (t.batches.insert id b).contains j
    rw [KeyMap.contains_insert, KeyMap.contains_insert, h.paired]
  counted j b' found := by
    rw [show KeyMap.get? (KeyMap.insert t.batches id b) j =
      if id = j then some b else t.batches.get? j from KeyMap.get?_insert ..] at found
    split at found
    · cases found
      exact counted
    · exact h.counted j b' found
  opened := opened
  unclosed j c' found := by
    rw [show KeyMap.get? (KeyMap.insert t.cursors id c) j =
      if id = j then some c else t.cursors.get? j from KeyMap.get?_insert ..] at found
    split at found
    · cases found
      exact unclosed
    · exact h.unclosed j c' found
  closed := h.closed

/-- An open cursor was read, and something was read ahead from it. -/
theorem keep (h : t.Matched max ids) {id : String} {c c' : Cursor (Recorded σ)} {b : Batch}
    (found : t.cursors.get? id = some c) (unclosed : c'.Unclosed)
    (counted : b.count = b.results.length ∧ b.count ≤ max) :
    Matched max ids
      { t with cursors := t.cursors.insert id c', batches := t.batches.insert id b } := by
  apply h.insert unclosed counted
  exact h.opened.trans ((KeyMap.keys_insert_of_some found c').symm.append_right _)

/-- An open cursor was read, and leaves the table. -/
theorem retire [Source σ] (h : t.Matched max ids) {id : String} {c c' : Cursor (Recorded σ)}
    (found : t.cursors.get? id = some c) (unclosed : c'.Unclosed) :
    (t.retire id c').Matched max ids where
  paired j := by
    show ((t.cursors.erase id).get? j).isSome = ((t.batches.erase id).get? j).isSome
    rw [KeyMap.get?_erase, KeyMap.get?_erase]
    split
    · rfl
    · exact h.paired j
  counted j b found' := by
    rw [show (t.retire id c').batches = t.batches.erase id from rfl, KeyMap.get?_erase] at found'
    split at found'
    · cases found'
    · exact h.counted j b found'
  opened := by
    show ids.Perm ((t.cursors.erase id).keys ++ (t.retired ++ [(id, c'.close)]).map Prod.fst)
    have moved : (t.cursors.keys ++ t.retired.map Prod.fst).Perm
        ((t.cursors.erase id).keys ++ (t.retired ++ [(id, c'.close)]).map Prod.fst) := by
      rw [List.map_append, ← List.append_assoc]
      exact ((KeyMap.keys_erase_of_some found).append_right _).trans
        (List.perm_append_singleton id _).symm
    exact h.opened.trans moved
  unclosed j d found' := by
    rw [show (t.retire id c').cursors = t.cursors.erase id from rfl, KeyMap.get?_erase] at found'
    split at found'
    · cases found'
    · exact h.unclosed j d found'
  closed e mem := by
    rcases List.mem_append.1 mem with mem | mem
    · exact h.closed e mem
    · cases List.mem_singleton.1 mem
      exact unclosed.close

end Matched

/-! ## Operations keep cursors and batches in step -/

variable [Source σ]

/-- Reading a page leaves a cursor that was not closed yet. -/
theorem unclosed_fill {room : Nat} {batch : Batch} {c c' : Cursor (Recorded σ)} {f : Filled}
    (h : c.Unclosed) (filled : fill room batch c = (f, c')) : c'.Unclosed := by
  have read : (fill room batch c).2.Unclosed :=
    fill_invariant (fun _ unclosed => unclosed.next) room batch h
  rw [filled] at read
  exact read

theorem matched_advance (positive : 0 < max) (h : t.Matched max ids) (id : String) :
    (t.advance max id).2.Matched max ids := by
  have step := advanced max t id
  generalize t.advance max id = p at step ⊢
  cases step with
  | unknown => exact h
  | failed found _ filled => exact h.retire found (unclosed_fill (h.unclosed id _ found) filled)
  | ended found _ filled => exact h.retire found (unclosed_fill (h.unclosed id _ found) filled)
  | full found _ filled =>
    obtain ⟨r, rfl⟩ := fill_full filled
    exact h.keep found (unclosed_fill (h.unclosed id _ found) filled) ⟨rfl, positive⟩

theorem matched_openCursor (positive : 0 < max) (h : t.Matched max ids) {id : String}
    (fresh : id ∉ ids) (source : σ) :
    (t.openCursor max id { source }).2.Matched max (ids ++ [id]) := by
  have none : t.cursors.get? id = none := h.get?_of_fresh fresh
  have unclosed : Cursor.Unclosed { source := ({ source } : Recorded σ) } := ⟨rfl, rfl⟩
  apply matched_advance positive
  apply h.insert unclosed ⟨rfl, Nat.zero_le max⟩
  calc ids ++ [id]
    _ |>.Perm (id :: ids) := List.perm_append_singleton id ids
    _ |>.Perm (id :: (t.cursors.keys ++ t.retired.map Prod.fst)) := h.opened.cons id
    _ |>.Perm ((t.cursors.insert id { source := ({ source } : Recorded σ) }).keys ++
        t.retired.map Prod.fst) :=
      (KeyMap.keys_insert_of_none none _).symm.append_right _

theorem matched_close (h : t.Matched max ids) (id : String) : (t.close id).Matched max ids := by
  cases found : t.cursors.get? id with
  | some c =>
    rw [close_of_open found]
    exact h.retire found (h.unclosed id c found)
  | none =>
    -- there was no batch of a cursor that is not open
    have absent : t.batches.get? id = none := by
      apply KeyMap.contains_eq_false_iff.1
      rw [← h.paired]
      exact KeyMap.contains_eq_false_iff.2 found
    have same : t.batches.erase id = t.batches := by
      apply KeyMap.eq_of_get?_eq
      intro j
      rw [KeyMap.get?_erase]
      split
      · rename_i same
        rw [← same, absent]
      · rfl
    rw [close_of_unknown found, same]
    exact h

theorem matched_closeAll (h : t.Matched max ids) : t.closeAll.Matched max ids := by
  have each (keys : List String) : ∀ {t : CursorTable (Recorded σ)}, t.Matched max ids →
      (keys.foldl close t).Matched max ids := by
    induction keys with
    | nil => exact fun h => h
    | cons id keys ih => exact fun h => ih (matched_close h id)
  exact each _ h

theorem matched_after (positive : 0 < max) (h : t.Matched max ids) (op : CursorOp σ)
    (fresh : (ids ++ op.opened?.toList).Nodup) :
    (t.after max op.recorded).Matched max (ids ++ op.opened?.toList) := by
  cases op with
  | openCursor id source =>
    have new : id ∉ ids := by
      intro mem
      exact (List.nodup_append.1 fresh).2.2 id mem id List.mem_cons_self rfl
    exact matched_openCursor positive h new source
  | advance id =>
    rw [show ids ++ (CursorOp.advance (σ := σ) id).opened?.toList = ids from List.append_nil ids]
    exact matched_advance positive h id
  | close id =>
    rw [show ids ++ (CursorOp.close (σ := σ) id).opened?.toList = ids from List.append_nil ids]
    exact matched_close h id
  | closeAll =>
    rw [show ids ++ (CursorOp.closeAll (σ := σ)).opened?.toList = ids from List.append_nil ids]
    exact matched_closeAll h

theorem matched_afterAll (positive : 0 < max) (h : t.Matched max ids) (ops : List (CursorOp σ))
    (fresh : (ids ++ ops.filterMap CursorOp.opened?).Nodup) :
    (t.afterAll max (ops.map .recorded)).Matched max (ids ++ ops.filterMap CursorOp.opened?) := by
  induction ops generalizing t ids with
  | nil =>
    rw [show List.filterMap CursorOp.opened? ([] : List (CursorOp σ)) = [] from rfl,
      List.append_nil]
    exact h
  | cons op ops ih =>
    have split : ids ++ (op :: ops).filterMap CursorOp.opened? =
        (ids ++ op.opened?.toList) ++ ops.filterMap CursorOp.opened? := by
      rw [List.append_assoc, List.filterMap_cons]
      cases op.opened? <;> rfl
    rw [split] at fresh ⊢
    exact ih (matched_after positive h op (List.nodup_append.1 fresh).1) fresh

/-- Whatever is done to the cursors of a transaction, one operation after another, with any sources
and as long as no identifier is given twice: the open cursors and what was read ahead from them are
in step. -/
theorem matched_of_ops {max : Nat} (positive : 0 < max) (ops : List (CursorOp σ))
    (fresh : (ops.filterMap CursorOp.opened?).Nodup) :
    (({} : CursorTable (Recorded σ)).afterAll max (ops.map .recorded)).Matched max
      (ops.filterMap CursorOp.opened?) :=
  matched_afterAll positive .empty ops fresh

/-- Three cursors: one that cannot be closed, one that cannot be read, and one that is left open
until all are closed. -/
def failingOps : List (CursorOp Scan) :=
  let results : List (Except LedgerError Found) :=
    [.ok (.entry { key := "a" }), .ok (.entry { key := "b" }), .ok (.entry { key := "c" })]
  [.openCursor "1" { pending := results, closeFault := some .cursorClosed },
    .openCursor "2" { pending := results.take 2 ++ [.error .cursorClosed] },
    .advance "2", .advance "2", .close "2", .close "1", .advance "1",
    .openCursor "3" { pending := results }, .closeAll, .close "4"]

theorem matched_of_ops_failingOps :
    0 < 1 ∧ (failingOps.filterMap CursorOp.opened?).Nodup ∧
      (({} : CursorTable (Recorded Scan)).afterAll 1 (failingOps.map .recorded)).Matched 1
        (failingOps.filterMap CursorOp.opened?) :=
  ⟨by decide, by decide, matched_of_ops (by decide) failingOps (by decide)⟩

example : (({} : CursorTable Scan).afterAll 1 failingOps).retired.map
    (fun e => (e.1, e.2.reads, e.2.closes)) = [("2", 3, 1), ("1", 2, 1), ("3", 2, 1)] := by
  decide +kernel

end CursorTable

end ContractNode
