import ContractNode.Cursor.Table

/-!
# Cursors are closed once

* `CursorTable.fill_invariant`, `fill_full` : what reading into a batch keeps, and what is read ahead;
* `CursorTable.retire` : a cursor is closed and leaves the table;
* `CursorTable.Advanced`, `advanced` : what asking for the next page comes to, by cases;
* `CursorTable.Once` : no open cursor was closed yet, and every other one was closed once;
* `once_openCursor`, `once_advance`, `once_close`, `once_closeAll` : it stays so;
* `cursors_closeAll`, `retired_closeAll` : closing all cursors leaves none open, and closes each of
  those that were open;
* `CursorTable.Knows`, `CursorTable.Grows` : a cursor that was open stays known.
-/

namespace ContractNode

namespace CursorTable

variable {σ : Type} [Source σ]

/-! ## Reading a page -/

/-- What holds of a cursor, and stays so whenever it is read, holds after reading into a batch. -/
theorem fill_invariant {P : Cursor σ → Prop} (read : ∀ c, P c → P c.next.2) (room : Nat)
    (batch : Batch) {c : Cursor σ} (h : P c) : P (fill room batch c).2 := by
  induction room generalizing batch c with
  | zero =>
    have kept : P c.next.2 := read c h
    unfold fill
    generalize c.next = p at kept ⊢
    obtain ⟨_ | _ | r, c'⟩ := p <;> exact kept
  | succ room ih =>
    have kept : P c.next.2 := read c h
    unfold fill
    generalize c.next = p at kept ⊢
    obtain ⟨_ | _ | r, c'⟩ := p
    · exact kept
    · exact kept
    · exact ih (batch.add r.encode) kept

/-- One result is read ahead when there is more. -/
theorem fill_full {room : Nat} {batch : Batch} {c c' : Cursor σ} {results : List Bytes}
    {ahead : Batch} (h : fill room batch c = (.full results ahead, c')) :
    ∃ r : Found, ahead = ⟨[r.encode], 1⟩ := by
  induction room generalizing batch c with
  | zero =>
    unfold fill at h
    generalize c.next = p at h
    obtain ⟨_ | _ | r, d⟩ := p <;> cases h
    exact ⟨r, rfl⟩
  | succ room ih =>
    unfold fill at h
    generalize c.next = p at h
    obtain ⟨_ | _ | r, d⟩ := p
    · cases h
    · cases h
    · exact ih h

/-- Reading neither closes a cursor nor opens it again. -/
theorem closes_fill (room : Nat) (batch : Batch) (c : Cursor σ) :
    (fill room batch c).2.closes = c.closes := by
  apply fill_invariant (P := fun d => d.closes = c.closes)
  · intro d h
    exact h
  · rfl

def retire (t : CursorTable σ) (id : String) (c : Cursor σ) : CursorTable σ where
  cursors := t.cursors.erase id
  batches := t.batches.erase id
  retired := t.retired ++ [(id, c.close)]

theorem open_of_retire {t : CursorTable σ} {id k : String} {c d : Cursor σ}
    (found : (t.retire id d).cursors.get? k = some c) : t.cursors.get? k = some c := by
  change (t.cursors.erase id).get? k = some c at found
  rw [KeyMap.get?_erase] at found
  split at found
  · cases found
  · exact found

theorem close_of_open {t : CursorTable σ} {id : String} {c : Cursor σ}
    (found : t.cursors.get? id = some c) : t.close id = t.retire id c := by
  unfold close
  rw [found]
  rfl

theorem close_of_unknown {t : CursorTable σ} {id : String} (none : t.cursors.get? id = none) :
    t.close id = { t with batches := t.batches.erase id } := by
  unfold close
  rw [none]

/-- A cursor that is closed right after it was read leaves the table as it was read. -/
theorem close_insert (t : CursorTable σ) (id : String) (c : Cursor σ) :
    { t with cursors := t.cursors.insert id c }.close id = t.retire id c := by
  have erased : (t.cursors.insert id c).erase id = t.cursors.erase id := by
    apply KeyMap.eq_of_get?_eq
    intro k
    rw [KeyMap.get?_erase, KeyMap.get?_erase, KeyMap.get?_insert]
    split <;> rfl
  rw [close_of_open (KeyMap.get?_insert_self ..)]
  unfold retire
  rw [erased]

/-- What asking for the next page of a cursor comes to: there is no such cursor, or it is read. If
it fails or ends it leaves the table, else something was read ahead from it. -/
inductive Advanced (max : Nat) (t : CursorTable σ) (id : String) :
    Except CursorError Page × CursorTable σ → Prop
  | unknown (none : t.cursors.get? id = none) : Advanced max t id (.error (.notFound id), t)
  | failed {batch : Batch} {c c' : Cursor σ} {e : LedgerError}
      (found : t.cursors.get? id = some c) (kept : (t.batches.get? id).getD {} = batch)
      (filled : fill (max - batch.count) batch c = (.failed e, c')) :
      Advanced max t id (.error (.ledger e), t.retire id c')
  | ended {batch : Batch} {c c' : Cursor σ} {results : List Bytes}
      (found : t.cursors.get? id = some c) (kept : (t.batches.get? id).getD {} = batch)
      (filled : fill (max - batch.count) batch c = (.ended results, c')) :
      Advanced max t id (.ok ⟨id, false, results⟩, t.retire id c')
  | full {batch ahead : Batch} {c c' : Cursor σ} {results : List Bytes}
      (found : t.cursors.get? id = some c) (kept : (t.batches.get? id).getD {} = batch)
      (filled : fill (max - batch.count) batch c = (.full results ahead, c')) :
      Advanced max t id (.ok ⟨id, true, results⟩,
        { t with cursors := t.cursors.insert id c', batches := t.batches.insert id ahead })

theorem advanced (max : Nat) (t : CursorTable σ) (id : String) :
    Advanced max t id (t.advance max id) := by
  unfold advance
  cases found : t.cursors.get? id with
  | none => exact .unknown found
  | some c =>
    simp only [close_insert]
    generalize kept : (t.batches.get? id).getD {} = batch
    generalize filled : fill (max - batch.count) batch c = p
    obtain ⟨_ | _ | _, c'⟩ := p
    · exact .failed found kept filled
    · exact .ended found kept filled
    · exact .full found kept filled

/-! ## Closing once -/

/-- No open cursor was closed yet, and every other one was closed once. -/
structure Once (t : CursorTable σ) : Prop where
  opened : ∀ id c, t.cursors.get? id = some c → c.closes = 0
  retired : ∀ e ∈ t.retired, e.2.closes = 1

omit [Source σ] in
theorem once_empty : ({} : CursorTable σ).Once where
  opened id c h := by cases h
  retired e h := by cases h

omit [Source σ] in
theorem once_insert {t : CursorTable σ} (h : t.Once) (id : String) {c : Cursor σ}
    (fresh : c.closes = 0) (batches : KeyMap Batch) :
    { t with cursors := t.cursors.insert id c, batches }.Once where
  opened id' c' found := by
    rw [KeyMap.get?_insert] at found
    split at found
    · cases found
      exact fresh
    · exact h.opened id' c' found
  retired := h.retired

theorem once_retire {t : CursorTable σ} (h : t.Once) (id : String) {c : Cursor σ}
    (fresh : c.closes = 0) : (t.retire id c).Once where
  opened id' c' found := h.opened id' c' (open_of_retire found)
  retired e mem := by
    rcases List.mem_append.1 mem with mem | mem
    · exact h.retired e mem
    · cases List.mem_singleton.1 mem
      show c.closes + 1 = 1
      rw [fresh]

theorem once_close {t : CursorTable σ} (h : t.Once) (id : String) : (t.close id).Once := by
  cases found : t.cursors.get? id with
  | none =>
    rw [close_of_unknown found]
    exact ⟨h.opened, h.retired⟩
  | some c =>
    rw [close_of_open found]
    exact once_retire h id (h.opened id c found)

theorem once_advance {t : CursorTable σ} (h : t.Once) (max : Nat) (id : String) :
    (t.advance max id).2.Once := by
  have fresh {room : Nat} {batch : Batch} {c c' : Cursor σ} {f : Filled}
      (found : t.cursors.get? id = some c) (filled : fill room batch c = (f, c')) :
      c'.closes = 0 := by
    have closes := closes_fill room batch c
    rw [filled, h.opened id c found] at closes
    exact closes
  have step := advanced max t id
  generalize t.advance max id = p at step ⊢
  cases step with
  | unknown => exact h
  | failed found _ filled => exact once_retire h id (fresh found filled)
  | ended found _ filled => exact once_retire h id (fresh found filled)
  | full found _ filled => exact once_insert h id (fresh found filled) _

theorem once_openCursor {t : CursorTable σ} (h : t.Once) (max : Nat) (id : String) (source : σ) :
    (t.openCursor max id source).2.Once :=
  once_advance (once_insert h id rfl (t.batches.insert id {})) max id

theorem once_foldl_close {t : CursorTable σ} (h : t.Once) (ids : List String) :
    (ids.foldl close t).Once := by
  induction ids generalizing t with
  | nil => exact h
  | cons id ids ih => exact ih (once_close h id)

theorem once_closeAll {t : CursorTable σ} (h : t.Once) : t.closeAll.Once := once_foldl_close h _

/-! ## Closing all cursors -/

/-- Closing the first open cursor leaves the others open. -/
theorem close_first {t : CursorTable σ} {id : String} {c : Cursor σ}
    {rest : List (String × Cursor σ)} (first : t.cursors.entries = (id, c) :: rest) :
    (t.close id).cursors.entries = rest ∧ (t.close id).retired = t.retired ++ [(id, c.close)] := by
  have found : t.cursors.get? id = some c :=
    KeyMap.mem_entries_iff.1 (first ▸ List.mem_cons_self)
  have left : (t.cursors.erase id).entries = rest := by
    show KeyMap.remove id t.cursors.entries = rest
    rw [first, KeyMap.remove, if_pos rfl]
  unfold close
  rw [found]
  exact ⟨left, rfl⟩

theorem foldl_close {es : List (String × Cursor σ)} {t : CursorTable σ}
    (h : t.cursors.entries = es) :
    ((es.map Prod.fst).foldl close t).cursors.entries = [] ∧
      ((es.map Prod.fst).foldl close t).retired =
        t.retired ++ es.map fun e => (e.1, e.2.close) := by
  induction es generalizing t with
  | nil => exact ⟨h, (List.append_nil _).symm⟩
  | cons e es ih =>
    obtain ⟨left, gone⟩ := close_first h
    obtain ⟨none, all⟩ := ih left
    refine ⟨none, all.trans ?_⟩
    rw [gone, List.append_assoc]
    rfl

theorem cursors_closeAll (t : CursorTable σ) : t.closeAll.cursors = ∅ := by
  apply KeyMap.eq_of_get?_eq
  intro id
  show KeyMap.find? id t.closeAll.cursors.entries = none
  rw [show t.closeAll.cursors.entries = [] from (foldl_close rfl).1]
  rfl

theorem retired_closeAll (t : CursorTable σ) :
    t.closeAll.retired = t.retired ++ t.cursors.entries.map fun e => (e.1, e.2.close) :=
  (foldl_close rfl).2

/-! ## Cursors stay known -/

/-- A cursor is open under an identifier, or one was closed. -/
def Knows (t : CursorTable σ) (id : String) : Prop :=
  (∃ c, t.cursors.get? id = some c) ∨ ∃ c, (id, c) ∈ t.retired

def Grows (t t' : CursorTable σ) : Prop := ∀ id, t.Knows id → t'.Knows id

omit [Source σ] in
theorem Grows.refl (t : CursorTable σ) : t.Grows t := fun _ known => known

omit [Source σ] in
theorem Grows.trans {t t' t'' : CursorTable σ} (h : t.Grows t') (h' : t'.Grows t'') :
    t.Grows t'' := fun id known => h' id (h id known)

omit [Source σ] in
theorem grows_insert (t : CursorTable σ) (id : String) (c : Cursor σ) (batches : KeyMap Batch) :
    t.Grows { t with cursors := t.cursors.insert id c, batches } := by
  rintro k (⟨d, found⟩ | gone)
  · left
    show ∃ d, (t.cursors.insert id c).get? k = some d
    rw [KeyMap.get?_insert]
    split
    · exact ⟨c, rfl⟩
    · exact ⟨d, found⟩
  · exact .inr gone

theorem grows_retire (t : CursorTable σ) (id : String) (c : Cursor σ) :
    t.Grows (t.retire id c) := by
  rintro k (⟨d, found⟩ | ⟨d, gone⟩)
  · by_cases same : id = k
    · subst same
      exact .inr ⟨c.close, List.mem_append_right _ (List.mem_singleton_self _)⟩
    · left
      refine ⟨d, ?_⟩
      show (t.cursors.erase id).get? k = some d
      rw [KeyMap.get?_erase, if_neg same, found]
  · exact .inr ⟨d, List.mem_append_left _ gone⟩

theorem grows_close (t : CursorTable σ) (id : String) : t.Grows (t.close id) := by
  cases found : t.cursors.get? id with
  | none =>
    rw [close_of_unknown found]
    exact fun _ known => known
  | some c =>
    rw [close_of_open found]
    exact grows_retire t id c

theorem grows_advance (max : Nat) (t : CursorTable σ) (id : String) :
    t.Grows (t.advance max id).2 := by
  have step := advanced max t id
  generalize t.advance max id = p at step ⊢
  cases step with
  | unknown => exact .refl t
  | failed | ended => exact grows_retire t id _
  | full => exact grows_insert t id _ _

theorem grows_openCursor (max : Nat) (t : CursorTable σ) (id : String) (source : σ) :
    t.Grows (t.openCursor max id source).2 :=
  (grows_insert t id { source } (t.batches.insert id {})).trans (grows_advance max _ id)

theorem grows_closeAll (t : CursorTable σ) : t.Grows t.closeAll := by
  have each (ids : List String) : t.Grows (ids.foldl close t) := by
    induction ids generalizing t with
    | nil => exact .refl t
    | cons id ids ih => exact (grows_close t id).trans (ih _)
  exact each _

end CursorTable

end ContractNode
