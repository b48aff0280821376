import ContractNode.Proofs.Cursors

/-!
# Reading a cursor page by page

A cursor is read in pages. What is on the pages that were read, what was read ahead and what is
still to be read are the results, at any time.

* `Source.Yields`, `Source.Stop` : the results that reading a source gives, and how it stops then;
* `fill_yields`, `fill_stop`, `fill_more` : what reading into a batch comes to;
* `CursorTable.Stands`, `advance_more`, `advance_last` : the next page of a cursor that is open, if
  there are more results than it takes, and if there are not;
* `CursorTable.Holds`, `Advance`, `advance_of_holds`, `advance_openCursor` : the same of a scan over
  known results;
* `CursorTable.Keeps` : a cursor is left as it was, as what is done to other cursors does
  (`Keeps.advance`, `Keeps.openCursor`, `Keeps.close`).
-/

namespace ContractNode

/-! ## Sources -/

namespace Source

variable {σ : Type} [Source σ]

/-- Reading a source gives some results, one after another, and leaves another source. -/
inductive Yields : σ → List Found → σ → Prop
  | nil (s : σ) : Yields s [] s
  | cons {s s' s'' : σ} {r : Found} {rs : List Found} (read : Source.next s = (.ok (some r), s'))
      (rest : Yields s' rs s'') : Yields s (r :: rs) s''

/-- The first of some results are read first. -/
theorem Yields.split {s s'' : σ} {rs rs' : List Found} (h : Yields s (rs ++ rs') s'') :
    ∃ s', Yields s rs s' ∧ Yields s' rs' s'' := by
  induction rs generalizing s with
  | nil => exact ⟨s, .nil s, h⟩
  | cons r rs ih =>
    cases h with
    | cons read rest =>
      obtain ⟨s', first, others⟩ := ih rest
      exact ⟨s', .cons read first, others⟩

/-- How a source stops to give results. -/
inductive Stop
  | ended
  | failed (e : LedgerError)

namespace Stop

def read : Stop → Except LedgerError (Option Found)
  | ended => .ok none
  | failed e => .error e

/-- What reading a page comes to then, after some results. -/
def filled (results : List Bytes) : Stop → CursorTable.Filled
  | ended => .ended results
  | failed e => .failed e

/-- What a request for a page is answered then, after some results. -/
def answer (id : String) (results : List Bytes) : Stop → Except CursorError Page
  | ended => .ok ⟨id, false, results⟩
  | failed e => .error (.ledger e)

end Stop

end Source

/-- The results that stand first in a scan are read first. -/
theorem Scan.yields {s : Scan} {rs rs' : List Found} (isOpen : s.closed = false)
    (pending : s.pending = (rs ++ rs').map .ok) :
    ∃ s' : Scan, Source.Yields s rs s' ∧ s'.closed = false ∧ s'.pending = rs'.map .ok := by
  induction rs generalizing s with
  | nil => exact ⟨s, .nil s, isOpen, pending⟩
  | cons r rs ih =>
    have read : s.next = (.ok (some r), { s with pending := (rs ++ rs').map .ok }) := by
      simp [Scan.next, isOpen, pending]
    obtain ⟨s', yields, left⟩ := ih (s := { s with pending := (rs ++ rs').map .ok }) isOpen rfl
    exact ⟨s', .cons read yields, left⟩

theorem Scan.ends {s : Scan} (isOpen : s.closed = false) (pending : s.pending = []) :
    (Source.next s).1 = Source.Stop.ended.read := by
  show s.next.1 = .ok none
  simp [Scan.next, isOpen, pending]

/-- More results than `k` are `k` of them, one more, and others. -/
theorem exists_split {rs : List Found} {k : Nat} (more : k < rs.length) :
    ∃ taken r after, rs = taken ++ r :: after ∧ taken.length = k := by
  refine ⟨rs.take k, rs[k], rs.drop (k + 1), ?_, List.length_take_of_le (Nat.le_of_lt more)⟩
  rw [← List.drop_eq_getElem_cons more, List.take_append_drop]

namespace CursorTable

variable {σ : Type} [Source σ]

/-! ## Reading into a batch -/

def addAll (b : Batch) (rs : List Found) : Batch :=
  ⟨b.results ++ rs.map Found.encode, b.count + rs.length⟩

/-- Results for which there is room are read into the batch. -/
theorem fill_yields {s s' : σ} {rs : List Found} (h : Source.Yields s rs s') (room : Nat)
    (batch : Batch) (reads closes : Nat) :
    fill (rs.length + room) batch ⟨s, reads, closes⟩ =
      fill room (addAll batch rs) ⟨s', reads + rs.length, closes⟩ := by
  induction h generalizing batch reads with
  | nil s =>
    have same : addAll batch [] = batch := congrArg (Batch.mk · batch.count) (List.append_nil _)
    rw [same, List.length_nil, Nat.zero_add, Nat.add_zero]
  | @cons s s' s'' r rs read rest ih =>
    have added : addAll (batch.add r.encode) rs = addAll batch (r :: rs) := by
      simp only [addAll, Batch.add, List.append_assoc, List.length_cons, List.map_cons]
      rw [Nat.add_right_comm, Nat.add_assoc]
      rfl
    rw [List.length_cons, Nat.add_right_comm rs.length 1 room, fill]
    simp only [Cursor.next, read]
    rw [ih, added, Nat.add_right_comm reads 1, Nat.add_assoc reads]

/-- Reading a source that stops ends the reading. -/
theorem fill_stop {s : σ} {stop : Source.Stop} (stops : (Source.next s).1 = stop.read) (room : Nat)
    (batch : Batch) (reads closes : Nat) :
    fill room batch ⟨s, reads, closes⟩ =
      (stop.filled batch.results, ⟨(Source.next s).2, reads + 1, closes⟩) := by
  unfold fill
  simp only [Cursor.next, stops]
  cases stop <;> rfl

/-- A result for which there is no room is read ahead. -/
theorem fill_more {s s' : σ} {r : Found} (read : Source.next s = (.ok (some r), s'))
    (batch : Batch) (reads closes : Nat) :
    fill 0 batch ⟨s, reads, closes⟩ =
      (.full batch.results ⟨[r.encode], 1⟩, ⟨s', reads + 1, closes⟩) := by
  unfold fill
  simp only [Cursor.next, read]
  rfl

/-! ## The next page -/

/-- A cursor is open, and some results were read ahead from it. -/
structure Stands (t : CursorTable σ) (id : String) (c : Cursor σ) (ahead : List Found) : Prop where
  cursor : t.cursors.get? id = some c
  batch : t.batches.get? id = some ⟨ahead.map Found.encode, ahead.length⟩

/-- There are more results than the next page takes: one of them is read ahead. -/
theorem advance_more {t : CursorTable σ} {id : String} {s s' : σ} {reads closes : Nat}
    {ahead taken : List Found} {r : Found} (h : t.Stands id ⟨s, reads, closes⟩ ahead) (max : Nat)
    (length : taken.length = max - ahead.length) (yields : Source.Yields s (taken ++ [r]) s') :
    t.advance max id = (.ok ⟨id, true, (ahead ++ taken).map Found.encode⟩,
      { t with
        cursors := t.cursors.insert id ⟨s', reads + taken.length + 1, closes⟩
        batches := t.batches.insert id ⟨[r.encode], 1⟩ }) := by
  obtain ⟨s₁, first, last⟩ := yields.split
  have read : Source.next s₁ = (.ok (some r), s') := by
    cases last with
    | cons read rest =>
      cases rest
      exact read
  have filled : fill (max - ahead.length) ⟨ahead.map Found.encode, ahead.length⟩
      ⟨s, reads, closes⟩ = (.full ((ahead ++ taken).map Found.encode) ⟨[r.encode], 1⟩,
        ⟨s', reads + taken.length + 1, closes⟩) := by
    rw [← length, show taken.length = taken.length + 0 from rfl, fill_yields first, fill_more read,
      List.map_append]
    rfl
  unfold advance
  simp only [h.cursor, h.batch, Option.getD_some, filled]

/-- There are no more results than the next page takes: the source stops, and the cursor is closed
and leaves the table. -/
theorem advance_last {t : CursorTable σ} {id : String} {s s' : σ} {reads closes : Nat}
    {ahead rest : List Found} {stop : Source.Stop} (h : t.Stands id ⟨s, reads, closes⟩ ahead)
    (max : Nat) (few : rest.length ≤ max - ahead.length) (yields : Source.Yields s rest s')
    (stops : (Source.next s').1 = stop.read) :
    t.advance max id = (stop.answer id ((ahead ++ rest).map Found.encode),
      t.retire id ⟨(Source.next s').2, reads + rest.length + 1, closes⟩) := by
  have filled : fill (max - ahead.length) ⟨ahead.map Found.encode, ahead.length⟩
      ⟨s, reads, closes⟩ = (stop.filled ((ahead ++ rest).map Found.encode),
        ⟨(Source.next s').2, reads + rest.length + 1, closes⟩) := by
    rw [← Nat.add_sub_cancel' few, fill_yields yields, fill_stop stops, List.map_append]
    rfl
  unfold advance
  simp only [h.cursor, h.batch, Option.getD_some, filled]
  cases stop with
  | ended => exact congrArg (Prod.mk _) (close_insert ..)
  | failed e => exact congrArg (Prod.mk _) (close_insert ..)

theorem get?_retire_self (t : CursorTable σ) (id : String) (c : Cursor σ) :
    (t.retire id c).cursors.get? id = none := KeyMap.get?_erase_self ..

theorem advance_of_gone {t : CursorTable σ} {id : String} (gone : t.cursors.get? id = none)
    (max : Nat) : t.advance max id = (.error (.notFound id), t) := by
  unfold advance
  simp only [gone]

/-! ## Cursors that are being read -/

/-- A cursor is open. Some results were read ahead from it, and the others are still to be read. -/
structure Holds (t : CursorTable Scan) (id : String) (ahead rest : List Found) : Prop where
  cursor : ∃ c, t.cursors.get? id = some c ∧ c.source.closed = false ∧
    c.source.pending = rest.map .ok
  batch : t.batches.get? id = some ⟨ahead.map Found.encode, ahead.length⟩

/-- What the next page of a cursor is, and what there is after it: the last results, and nothing is
left of the cursor, or some of the results, and there are others. -/
inductive Advance (max : Nat) (id : String) (ahead rest : List Found) :
    Except CursorError Page × CursorTable Scan → Prop
  | ends {t : CursorTable Scan} (gone : t.cursors.get? id = none) :
      Advance max id ahead rest (.ok ⟨id, false, (ahead ++ rest).map Found.encode⟩, t)
  | goesOn {t : CursorTable Scan} {taken after : List Found} {r : Found}
      (split : rest = taken ++ r :: after) (length : taken.length = max - ahead.length)
      (holds : t.Holds id [r] after) :
      Advance max id ahead rest (.ok ⟨id, true, (ahead ++ taken).map Found.encode⟩, t)

theorem advance_of_holds {t : CursorTable Scan} {id : String} {ahead rest : List Found}
    (h : t.Holds id ahead rest) (max : Nat) : Advance max id ahead rest (t.advance max id) := by
  obtain ⟨c, found, isOpen, pending⟩ := h.cursor
  have stands : t.Stands id ⟨c.source, c.reads, c.closes⟩ ahead := ⟨found, h.batch⟩
  rcases Nat.lt_or_ge (max - ahead.length) rest.length with more | few
  · obtain ⟨taken, r, after, split, length⟩ := exists_split more
    have ordered : c.source.pending = ((taken ++ [r]) ++ after).map .ok := by
      rw [pending, split, List.append_assoc]
      rfl
    obtain ⟨s', yields, isOpen', left⟩ := Scan.yields isOpen ordered
    rw [advance_more stands max length yields]
    exact .goesOn split length
      ⟨⟨_, KeyMap.get?_insert_self .., isOpen', left⟩, KeyMap.get?_insert_self ..⟩
  · have ordered : c.source.pending = (rest ++ []).map .ok := by rw [pending, List.append_nil]
    obtain ⟨s', yields, isOpen', left⟩ := Scan.yields isOpen ordered
    rw [advance_last stands max few yields (Scan.ends isOpen' left)]
    exact .ends (get?_retire_self ..)

/-- The first page of a new cursor is the next one after nothing. -/
theorem advance_openCursor (t : CursorTable Scan) (max : Nat) (id : String) (results : List Found) :
    Advance max id [] results (t.openCursor max id (Scan.ofResults results)) :=
  advance_of_holds
    ⟨⟨_, KeyMap.get?_insert_self .., rfl, rfl⟩, KeyMap.get?_insert_self ..⟩ max

/-! ## Cursors that are left as they were -/

/-- A cursor is left as it was, and what was read ahead from it. -/
structure Keeps (t : CursorTable σ) (id : String) (t' : CursorTable σ) : Prop where
  cursor : t'.cursors.get? id = t.cursors.get? id
  batch : t'.batches.get? id = t.batches.get? id

namespace Keeps

section

variable {σ : Type} {t t' t'' : CursorTable σ} {id id' : String}

theorem refl (t : CursorTable σ) (id : String) : t.Keeps id t := ⟨rfl, rfl⟩

theorem trans (h : t.Keeps id t') (h' : t'.Keeps id t'') : t.Keeps id t'' :=
  ⟨h'.cursor.trans h.cursor, h'.batch.trans h.batch⟩

theorem insert (other : id' ≠ id) (c : Cursor σ) (b : Batch) :
    t.Keeps id { t with cursors := t.cursors.insert id' c, batches := t.batches.insert id' b } :=
  ⟨by rw [KeyMap.get?_insert, if_neg other], by rw [KeyMap.get?_insert, if_neg other]⟩

end

variable {t t' : CursorTable σ} {id id' : String}

theorem holds {t t' : CursorTable Scan} {ahead rest : List Found} (h : t.Keeps id t')
    (holds : t.Holds id ahead rest) : t'.Holds id ahead rest := by
  refine ⟨?_, h.batch.trans holds.batch⟩
  rw [h.cursor]
  exact holds.cursor

theorem retire (other : id' ≠ id) (c : Cursor σ) : t.Keeps id (t.retire id' c) :=
  ⟨by rw [CursorTable.retire, KeyMap.get?_erase, if_neg other],
    by rw [CursorTable.retire, KeyMap.get?_erase, if_neg other]⟩

theorem close (other : id' ≠ id) : t.Keeps id (t.close id') := by
  cases found : t.cursors.get? id' with
  | none =>
    rw [close_of_unknown found]
    exact ⟨rfl, by rw [KeyMap.get?_erase, if_neg other]⟩
  | some c =>
    rw [close_of_open found]
    exact retire other c

theorem advance (other : id' ≠ id) (max : Nat) : t.Keeps id (t.advance max id').2 := by
  have step := advanced max t id'
  generalize t.advance max id' = p at step ⊢
  cases step with
  | unknown => exact refl t id
  | failed => exact retire other _
  | ended => exact retire other _
  | full => exact insert other _ _

theorem openCursor (other : id' ≠ id) (max : Nat) (source : σ) :
    t.Keeps id (t.openCursor max id' source).2 :=
  (insert other { source } {}).trans (advance other max)

end Keeps

end CursorTable

end ContractNode
