import ContractNode.Proofs.Matched
import ContractNode.Proofs.Paging

/-!
# Reading a cursor to its end

A cursor is opened and its next page is asked for time and again, while other things are done to
other cursors in between.

* `CursorTable.history` : the cursors there were under an identifier;
* `CursorTable.Beside` : whatever is done to other cursors leaves a cursor as it was
  (`beside_after`, `beside_afterAll`);
* `CursorTable.calls` : the answer to each call, and the cursors after it;
* `pages` : how many pages some results fill;
* `Drained`, `Broken` : what the calls come to if the source ends, and if it fails;
* `reads_calls`, `due_calls` : what each call keeps, and with it each run of calls;
* `calls_of_cursor` : how often a cursor is read, what is answered, and when it is closed.
-/

namespace ContractNode

/-- The operation is not about the cursor with an identifier. -/
def CursorOp.spares {σ : Type} (id : String) : CursorOp σ → Bool
  | .openCursor id' _ | .advance id' | .close id' => decide (id' ≠ id)
  | .closeAll => false

namespace CursorTable

variable {σ : Type}

/-- The cursors there were under an identifier. If one is open it is the last. -/
def history (t : CursorTable σ) (id : String) : List (Cursor σ) :=
  (t.retired.filter fun e => decide (e.1 = id)).map Prod.snd ++ (t.cursors.get? id).toList

theorem history_of_retired {t t' : CursorTable σ} {id : String} {gone : List (String × Cursor σ)}
    (retired : t'.retired = t.retired ++ gone) (others : ∀ e ∈ gone, e.1 ≠ id) :
    (t'.retired.filter fun e => decide (e.1 = id)) =
      t.retired.filter fun e => decide (e.1 = id) := by
  have none : (gone.filter fun e => decide (e.1 = id)) = [] := by
    apply List.filter_eq_nil_iff.2
    intro e mem
    simpa using others e mem
  rw [retired, List.filter_append, none, List.append_nil]

/-- Nothing was done to the cursor with an identifier. -/
structure Beside (t : CursorTable σ) (id : String) (t' : CursorTable σ) : Prop where
  keeps : t.Keeps id t'
  retired : ∃ gone, t'.retired = t.retired ++ gone ∧ ∀ e ∈ gone, e.1 ≠ id

namespace Beside

variable {t t' t'' : CursorTable σ} {id id' : String}

theorem refl (t : CursorTable σ) (id : String) : t.Beside id t :=
  ⟨.refl t id, [], (List.append_nil _).symm, fun e mem => by cases mem⟩

theorem trans (h : t.Beside id t') (h' : t'.Beside id t'') : t.Beside id t'' := by
  obtain ⟨gone, retired, others⟩ := h.retired
  obtain ⟨gone', retired', others'⟩ := h'.retired
  refine ⟨h.keeps.trans h'.keeps, gone ++ gone', ?_, ?_⟩
  · rw [retired', retired, List.append_assoc]
  · intro e mem
    rcases List.mem_append.1 mem with mem | mem
    · exact others e mem
    · exact others' e mem

theorem insert (other : id' ≠ id) (c : Cursor σ) (b : Batch) :
    t.Beside id { t with cursors := t.cursors.insert id' c, batches := t.batches.insert id' b } :=
  ⟨.insert other c b, [], (List.append_nil _).symm, fun e mem => by cases mem⟩

theorem history (h : t.Beside id t') : t'.history id = t.history id := by
  obtain ⟨gone, retired, others⟩ := h.retired
  unfold CursorTable.history
  rw [history_of_retired retired others, h.keeps.cursor]

end Beside

variable [Source σ] {t t' : CursorTable σ} {id id' : String}

theorem beside_retire (other : id' ≠ id) (c : Cursor σ) : t.Beside id (t.retire id' c) := by
  refine ⟨.retire other c, [(id', c.close)], rfl, ?_⟩
  intro e mem
  cases List.mem_singleton.1 mem
  exact other

theorem beside_advance (other : id' ≠ id) (max : Nat) : t.Beside id (t.advance max id').2 := by
  have step := advanced max t id'
  generalize t.advance max id' = p at step ⊢
  cases step with
  | unknown => exact .refl t id
  | failed => exact beside_retire other _
  | ended => exact beside_retire other _
  | full => exact .insert other _ _

theorem beside_close (other : id' ≠ id) : t.Beside id (t.close id') := by
  refine ⟨.close other, ?_⟩
  cases found : t.cursors.get? id' with
  | none =>
    rw [close_of_unknown found]
    exact ⟨[], (List.append_nil _).symm, fun e mem => by cases mem⟩
  | some c =>
    rw [close_of_open found]
    exact (beside_retire other c).retired

theorem beside_after (max : Nat) (t : CursorTable σ) {op : CursorOp σ}
    (other : op.spares id = true) : t.Beside id (t.after max op) := by
  cases op with
  | openCursor id' source =>
    have other : id' ≠ id := of_decide_eq_true other
    exact (Beside.insert other { source } {}).trans (beside_advance other max)
  | advance id' => exact beside_advance (of_decide_eq_true other) max
  | close id' => exact beside_close (of_decide_eq_true other)
  | closeAll => cases other

theorem beside_afterAll (max : Nat) (t : CursorTable σ) {ops : List (CursorOp σ)}
    (others : ∀ op ∈ ops, op.spares id = true) : t.Beside id (t.afterAll max ops) := by
  induction ops generalizing t with
  | nil => exact .refl t id
  | cons op ops ih =>
    have first : t.Beside id (t.after max op) :=
      beside_after max t (others op List.mem_cons_self)
    exact first.trans (ih _ fun op' mem => others op' (List.mem_cons_of_mem op mem))

/-! ## Calls -/

/-- What the answer to each call is, and the cursors after it. The first call opens a cursor; each
other one asks for its next page, after what was done `between` it and the call before. -/
def calls (max : Nat) (t : CursorTable σ) (id : String) (source : σ)
    (between : Nat → List (CursorOp σ)) : Nat → Except CursorError Page × CursorTable σ
  | 0 => t.openCursor max id source
  | i + 1 => ((calls max t id source between i).2.afterAll max (between i)).advance max id

def answered : Except CursorError Page → List Bytes
  | .ok page => page.results
  | .error _ => []

/-- How many pages some results fill, where there is one if there are no results. -/
def pages (max count : Nat) : Nat := Nat.max 1 ((count + max - 1) / max)

/-- What calls come to if the source gives some results and then ends: each page but the last is
full and tells that there is more, the last one tells that there is not, and is empty only if there
are no results; taken together they hold the results. The cursor is closed once, in the call for the
last page, and it is gone then. -/
structure Drained (max : Nat) (id : String) (results : List Found)
    (calls : Nat → Except CursorError Page × CursorTable σ) (cursor : Nat → Cursor σ) : Prop where
  full : ∀ i, i + 1 < pages max results.length →
    ∃ page, (calls i).1 = .ok ⟨id, true, page⟩ ∧ page.length = max
  last : ∃ page, (calls (pages max results.length - 1)).1 = .ok ⟨id, false, page⟩ ∧
    (page = [] → results = [])
  whole : ((List.range (pages max results.length)).flatMap fun i => answered (calls i).1) =
    results.map Found.encode
  still : ∀ i, i + 1 < pages max results.length →
    (calls i).2.isOpen id = true ∧ (cursor i).closes = 0
  closed : ∀ i, pages max results.length ≤ i + 1 →
    (calls i).2.isOpen id = false ∧ (cursor i).reads = results.length + 1 ∧ (cursor i).closes = 1
  later : ∀ i, pages max results.length ≤ i → (calls i).1 = .error (.notFound id)

/-- What calls come to if a source gives some results and then fails: full pages for as long as there
are results for them and one more, and then the failure. The cursor is closed once, in the call that
fails, and it is gone then. -/
structure Broken (max : Nat) (id : String) (results : List Found) (e : LedgerError)
    (calls : Nat → Except CursorError Page × CursorTable σ) (cursor : Nat → Cursor σ) : Prop where
  full : ∀ i, i < (results.length - 1) / max →
    ∃ page, (calls i).1 = .ok ⟨id, true, page⟩ ∧ page.length = max
  fails : (calls ((results.length - 1) / max)).1 = .error (.ledger e)
  whole : ((List.range ((results.length - 1) / max)).flatMap fun i => answered (calls i).1) =
    (results.take (max * ((results.length - 1) / max))).map Found.encode
  still : ∀ i, i < (results.length - 1) / max →
    (calls i).2.isOpen id = true ∧ (cursor i).closes = 0
  closed : ∀ i, (results.length - 1) / max ≤ i →
    (calls i).2.isOpen id = false ∧ (cursor i).reads = results.length + 1 ∧ (cursor i).closes = 1
  later : ∀ i, (results.length - 1) / max < i → (calls i).1 = .error (.notFound id)

theorem pages_eq {max : Nat} (positive : 0 < max) (count : Nat) :
    pages max count = (count - 1) / max + 1 := by
  unfold pages
  rcases Nat.eq_zero_or_pos count with rfl | some
  · rw [Nat.zero_add, Nat.zero_sub, Nat.zero_div, Nat.div_eq_of_lt (by omega)]
    rfl
  · rw [show count + max - 1 = count - 1 + max by omega, Nat.add_div_right _ positive]
    exact Nat.max_eq_right (Nat.le_add_left 1 _)

/-- There are results for a full page and one more, just before the last page. -/
theorem more_iff {max : Nat} (positive : 0 < max) (i count : Nat) :
    i < (count - 1) / max ↔ (i + 1) * max < count := by
  have bound : i < (count - 1) / max ↔ (i + 1) * max ≤ count - 1 := by
    rw [← Nat.succ_le_iff, Nat.le_div_iff_mul_le positive]
  rw [bound]
  have : 0 < (i + 1) * max := Nat.mul_pos (Nat.succ_pos i) positive
  omega

/-! ## How often a cursor is read -/

/-- A page is read with a bounded number of reads. -/
theorem reads_fill (room : Nat) (batch : Batch) (c : Cursor σ) :
    (fill room batch c).2.reads ≤ c.reads + room + 1 := by
  induction room generalizing batch c with
  | zero =>
    have once : c.next.2.reads = c.reads + 1 := rfl
    unfold fill
    generalize c.next = p at once ⊢
    obtain ⟨_ | _ | r, c'⟩ := p <;> exact Nat.le_of_eq once
  | succ room ih =>
    have once : c.next.2.reads = c.reads + 1 := rfl
    unfold fill
    generalize c.next = p at once ⊢
    obtain ⟨r, c'⟩ := p
    have once : c'.reads = c.reads + 1 := once
    have least : c'.reads ≤ c.reads + (room + 1) + 1 := by omega
    rcases r with _ | _ | r
    · exact least
    · exact least
    · have rest := ih (batch.add r.encode) c'
      show (fill room (batch.add r.encode) c').2.reads ≤ _
      omega

/-- There was one cursor under an identifier. While it is open, `count` results were read ahead. -/
structure Sole (t : CursorTable σ) (id : String) (c : Cursor σ) (count : Nat) : Prop where
  history : t.history id = [c]
  ahead : t.isOpen id = true → ((t.batches.get? id).getD {}).count = count

omit [Source σ] in
theorem Sole.beside {c : Cursor σ} {count : Nat} (h : t.Sole id c count) (beside : t.Beside id t') :
    t'.Sole id c count := by
  refine ⟨beside.history.trans h.history, ?_⟩
  rw [isOpen, KeyMap.contains, beside.keeps.cursor, beside.keeps.batch]
  exact h.ahead

omit [Source σ] in
theorem Sole.unique {c c' : Cursor σ} {count count' : Nat} (h : t.Sole id c count)
    (h' : t.Sole id c' count') : c = c' :=
  List.singleton_inj.1 (h.history.symm.trans h'.history)

omit [Source σ] in
/-- A cursor that is open is the only one, and none was closed before it. -/
theorem Sole.of_open {c c' : Cursor σ} {count : Nat} (h : t.Sole id c count)
    (found : t.cursors.get? id = some c') :
    c' = c ∧ (t.retired.filter fun e => decide (e.1 = id)) = [] := by
  have sole := h.history
  unfold CursorTable.history at sole
  rw [found, Option.toList_some] at sole
  obtain ⟨none, same⟩ := List.append_eq_singleton_iff.1 sole |>.resolve_right (by simp)
  exact ⟨List.singleton_inj.1 same, List.map_eq_nil_iff.1 none⟩

omit [Source σ] in
theorem history_insert {c : Cursor σ} {b : Batch}
    (first : (t.retired.filter fun e => decide (e.1 = id)) = []) :
    CursorTable.history
      { t with cursors := t.cursors.insert id c, batches := t.batches.insert id b } id = [c] := by
  unfold history
  rw [first, KeyMap.get?_insert_self]
  rfl

theorem history_retire {c : Cursor σ}
    (first : (t.retired.filter fun e => decide (e.1 = id)) = []) :
    (t.retire id c).history id = [c.close] := by
  unfold history
  rw [get?_retire_self, show (t.retire id c).retired = t.retired ++ [(id, c.close)] from rfl,
    List.filter_append, first]
  simp

theorem sole_retire (first : (t.retired.filter fun e => decide (e.1 = id)) = []) (c : Cursor σ)
    (count : Nat) : (t.retire id c).Sole id c.close count := by
  refine ⟨history_retire first, ?_⟩
  intro isOpen
  rw [CursorTable.isOpen, KeyMap.contains_eq_false_iff.2 (get?_retire_self ..)] at isOpen
  cases isOpen

/-- One call reads a cursor at most once for each result that there is room for, and once more. -/
theorem Sole.advance {c : Cursor σ} {count : Nat} (h : t.Sole id c count) (max : Nat) :
    ∃ c', (t.advance max id).2.Sole id c' 1 ∧ c'.reads ≤ c.reads + (max - count) + 1 := by
  have step := advanced max t id
  generalize t.advance max id = p at step ⊢
  have read {d d' : Cursor σ} {f : Filled} {batch : Batch} (found : t.cursors.get? id = some d)
      (kept : (t.batches.get? id).getD {} = batch)
      (filled : fill (max - batch.count) batch d = (f, d')) :
      d'.reads ≤ c.reads + (max - count) + 1 := by
    have ahead := h.ahead (KeyMap.contains_iff.2 ⟨d, found⟩)
    have bound := reads_fill (max - batch.count) batch d
    rw [filled, (h.of_open found).1, ← kept, ahead] at bound
    exact bound
  cases step with
  | unknown none =>
    refine ⟨c, ⟨h.history, ?_⟩, by omega⟩
    intro isOpen
    rw [CursorTable.isOpen, KeyMap.contains_eq_false_iff.2 none] at isOpen
    cases isOpen
  | @failed _ _ c' _ found kept filled =>
    have bound := read found kept filled
    exact ⟨c'.close, sole_retire (h.of_open found).2 c' 1, bound⟩
  | @ended _ _ c' _ found kept filled =>
    have bound := read found kept filled
    exact ⟨c'.close, sole_retire (h.of_open found).2 c' 1, bound⟩
  | @full batch ahead _ c' _ found kept filled =>
    refine ⟨c', ⟨history_insert (h.of_open found).2, ?_⟩, read found kept filled⟩
    intro _
    obtain ⟨r, rfl⟩ := fill_full filled
    show ((t.batches.insert id ⟨[r.encode], 1⟩).get? id |>.getD {}).count = 1
    rw [KeyMap.get?_insert_self]
    rfl

/-! ## A run of calls -/

variable {max : Nat} {source : σ} {between : Nat → List (CursorOp σ)}

def upTo (max : Nat) (t : CursorTable σ) (id : String) (source : σ)
    (between : Nat → List (CursorOp σ)) : Nat → CursorTable σ
  | 0 => { t with cursors := t.cursors.insert id { source }, batches := t.batches.insert id {} }
  | i + 1 => (t.calls max id source between i).2.afterAll max (between i)

theorem calls_eq (i : Nat) :
    t.calls max id source between i = (t.upTo max id source between i).advance max id := by
  cases i <;> rfl

theorem beside_upTo (max : Nat) (t : CursorTable σ) (source : σ)
    (apart : ∀ i, ∀ op ∈ between i, op.spares id = true) (i : Nat) :
    (t.calls max id source between i).2.Beside id (t.upTo max id source between (i + 1)) :=
  beside_afterAll max _ (apart i)

omit [Source σ] in
/-- No cursor was closed under a new identifier, and none is open. -/
theorem retired_of_new (new : t.history id = []) :
    (t.retired.filter fun e => decide (e.1 = id)) = [] :=
  List.map_eq_nil_iff.1 (List.append_eq_nil_iff.1 new).1

/-- What a run of calls reads, call by call, whatever the source gives. -/
theorem reads_calls (positive : 0 < max) (new : t.history id = []) (source : σ)
    (apart : ∀ i, ∀ op ∈ between i, op.spares id = true) :
    ∃ cursor : Nat → Cursor σ,
      (∀ i, (t.calls max id source between i).2.Sole id (cursor i) 1) ∧
      (cursor 0).reads ≤ max + 1 ∧ ∀ i, (cursor (i + 1)).reads ≤ (cursor i).reads + max := by
  have start : (t.upTo max id source between 0).Sole id { source } 0 := by
    refine ⟨history_insert (retired_of_new new), ?_⟩
    intro _
    show ((t.batches.insert id {}).get? id |>.getD {}).count = 0
    rw [KeyMap.get?_insert_self]
    rfl
  obtain ⟨first, sole, least⟩ := start.advance max
  -- by induction, there is one cursor after each call, and something was read ahead from it
  have all (i : Nat) : ∃ c, (t.calls max id source between i).2.Sole id c 1 := by
    induction i with
    | zero => exact ⟨first, sole⟩
    | succ i ih =>
      obtain ⟨c, sole⟩ := ih
      obtain ⟨c', sole', _⟩ := (sole.beside (beside_upTo max t source apart i)).advance max
      exact ⟨c', sole'⟩
  obtain ⟨cursor, soles⟩ := Classical.axiomOfChoice all
  refine ⟨cursor, soles, ?_, ?_⟩
  · rw [(soles 0).unique sole]
    have least : first.reads ≤ 0 + (max - 0) + 1 := least
    omega
  · intro i
    obtain ⟨c', sole', bound⟩ := ((soles i).beside (beside_upTo max t source apart i)).advance max
    rw [← calls_eq] at sole'
    rw [(soles (i + 1)).unique sole']
    omega

/-! ## A source that stops -/

/-- What there is right before a call, if the calls before it answered full pages: the cursor was
read once for each result on them and once for the one that was read ahead. -/
structure Due (max : Nat) (id : String) (rs : List Found) (last : σ) (i : Nat)
    (t : CursorTable σ) : Prop where
  first : (t.retired.filter fun e => decide (e.1 = id)) = []
  place : ∃ s ahead rest, t.Stands id ⟨s, i * max + ahead.length, 0⟩ ahead ∧
    rs.drop (i * max) = ahead ++ rest ∧ Source.Yields s rest last ∧ ahead.length ≤ 1

variable {rs : List Found} {last : σ} {i : Nat} {stop : Source.Stop}

theorem Due.beside (h : t.Due max id rs last i) (beside : t.Beside id t') :
    t'.Due max id rs last i := by
  obtain ⟨s, ahead, rest, stands, split, yields, least⟩ := h.place
  obtain ⟨gone, retired, others⟩ := beside.retired
  exact ⟨(history_of_retired retired others).trans h.first, s, ahead, rest,
    ⟨beside.keeps.cursor.trans stands.cursor, beside.keeps.batch.trans stands.batch⟩, split, yields,
    least⟩

/-- As long as there are more results than the next page takes, it is full. -/
theorem Due.more (positive : 0 < max) (h : t.Due max id rs last i)
    (more : (i + 1) * max < rs.length) :
    (t.advance max id).1 = .ok ⟨id, true, ((rs.drop (i * max)).take max).map Found.encode⟩ ∧
      (t.advance max id).2.Due max id rs last (i + 1) ∧
      ∃ c, (t.advance max id).2.cursors.get? id = some c ∧ c.closes = 0 := by
  obtain ⟨s, ahead, rest, stands, split, yields, least⟩ := h.place
  have count : rs.length - i * max = ahead.length + rest.length := by
    rw [← List.length_drop, split, List.length_append]
  rw [Nat.succ_mul] at more
  have room : max - ahead.length < rest.length := by omega
  obtain ⟨taken, r, after, rfl, length⟩ := exists_split room
  -- the page is what was read ahead and what is taken now
  have page : (rs.drop (i * max)).take max = ahead ++ taken := by
    rw [split, ← List.append_assoc]
    exact List.take_left' (by rw [List.length_append]; omega)
  have left : rs.drop ((i + 1) * max) = [r] ++ after := by
    rw [Nat.succ_mul, ← List.drop_drop, split, ← List.append_assoc]
    exact List.drop_left' (by rw [List.length_append]; omega)
  rw [List.append_cons] at yields
  obtain ⟨s', part, others⟩ := yields.split
  rw [advance_more stands max length part, page]
  have reads : i * max + ahead.length + taken.length + 1 = (i + 1) * max + 1 := by
    rw [Nat.succ_mul]
    omega
  rw [reads]
  exact ⟨rfl, ⟨h.first, s', [r], after, ⟨KeyMap.get?_insert_self .., KeyMap.get?_insert_self ..⟩,
    left, others, Nat.le_refl 1⟩, _, KeyMap.get?_insert_self .., rfl⟩

/-- If there are no more results than the next page takes, the source stops. -/
theorem Due.stops (h : t.Due max id rs last i) (start : i * max ≤ rs.length)
    (few : rs.length ≤ (i + 1) * max) (stops : (Source.next last).1 = stop.read) :
    (t.advance max id).1 = stop.answer id ((rs.drop (i * max)).map Found.encode) ∧
      ∃ c, (t.advance max id).2.history id = [c] ∧
        (t.advance max id).2.cursors.get? id = none ∧ c.reads = rs.length + 1 ∧ c.closes = 1 := by
  obtain ⟨s, ahead, rest, stands, split, yields, least⟩ := h.place
  have count : rs.length - i * max = ahead.length + rest.length := by
    rw [← List.length_drop, split, List.length_append]
  rw [Nat.succ_mul] at few
  have room : rest.length ≤ max - ahead.length := by omega
  rw [advance_last stands max room yields stops, split]
  refine ⟨rfl, _, history_retire h.first, get?_retire_self .., ?_, rfl⟩
  show i * max + ahead.length + rest.length + 1 = rs.length + 1
  omega

/-- Each call before the last one finds the pages before it answered. -/
theorem due_calls (positive : 0 < max) (new : t.history id = [])
    (apart : ∀ i, ∀ op ∈ between i, op.spares id = true) (yields : Source.Yields source rs last)
    (i : Nat) (least : i ≤ (rs.length - 1) / max) :
    (t.upTo max id source between i).Due max id rs last i := by
  induction i with
  | zero =>
    have first : (t.retired.filter fun e => decide (e.1 = id)) = [] := retired_of_new new
    refine ⟨first, source, [], rs, ⟨?_, ?_⟩, ?_, yields, Nat.zero_le 1⟩
    · rw [Nat.zero_mul]
      exact KeyMap.get?_insert_self ..
    · exact KeyMap.get?_insert_self ..
    · rw [Nat.zero_mul]
      rfl
  | succ i ih =>
    have more : (i + 1) * max < rs.length := (more_iff positive i _).1 least
    have due := ((ih (Nat.le_of_succ_le least)).more positive more).2.1
    rw [← calls_eq] at due
    exact due.beside (beside_upTo max t source apart i)

/-- A run of calls on a cursor whose source gives some results and then stops. -/
structure Served (max : Nat) (id : String) (rs : List Found) (stop : Source.Stop)
    (calls : Nat → Except CursorError Page × CursorTable σ) : Prop where
  full : ∀ i, i < (rs.length - 1) / max →
    (calls i).1 = .ok ⟨id, true, ((rs.drop (i * max)).take max).map Found.encode⟩ ∧
    ∃ c, (calls i).2.cursors.get? id = some c ∧ c.closes = 0
  stops : (calls ((rs.length - 1) / max)).1 =
    stop.answer id ((rs.drop ((rs.length - 1) / max * max)).map Found.encode)
  gone : ∀ i, (rs.length - 1) / max ≤ i → (calls i).2.cursors.get? id = none ∧
    ∃ c, (calls i).2.history id = [c] ∧ c.reads = rs.length + 1 ∧ c.closes = 1
  later : ∀ i, (rs.length - 1) / max < i → (calls i).1 = .error (.notFound id)

theorem served_calls (positive : 0 < max) (new : t.history id = [])
    (apart : ∀ i, ∀ op ∈ between i, op.spares id = true) (yields : Source.Yields source rs last)
    (stops : (Source.next last).1 = stop.read) :
    Served max id rs stop (t.calls max id source between) := by
  have due := due_calls positive new apart yields
  generalize count : (rs.length - 1) / max = k at due
  have start : k * max ≤ rs.length := by
    have : (rs.length - 1) / max * max ≤ rs.length - 1 := Nat.div_mul_le_self ..
    rw [count] at this
    omega
  have few : rs.length ≤ (k + 1) * max := by
    have : ¬ (k + 1) * max < rs.length := by
      rw [← more_iff positive, count]
      exact Nat.lt_irrefl k
    omega
  obtain ⟨answer, c, history, none, reads, closes⟩ := (due k (Nat.le_refl k)).stops start few stops
  rw [← calls_eq] at answer history none
  -- after the last call, whatever is done leaves the cursor gone
  have gone (j : Nat) : (t.calls max id source between (k + j)).2.cursors.get? id = .none ∧
      (t.calls max id source between (k + j)).2.history id = [c] := by
    induction j with
    | zero => exact ⟨none, history⟩
    | succ j ih =>
      have beside := beside_upTo max t source apart (k + j)
      have none' := beside.keeps.cursor.trans ih.1
      rw [← Nat.add_assoc, calls_eq, advance_of_gone none']
      exact ⟨none', beside.history.trans ih.2⟩
  constructor
  · intro i before
    rw [count] at before
    have more : (i + 1) * max < rs.length := by
      rw [← more_iff positive, count]
      exact before
    obtain ⟨page, _, isOpen⟩ := (due i (Nat.le_of_lt before)).more positive more
    rw [calls_eq]
    exact ⟨page, isOpen⟩
  · rw [count]
    exact answer
  · intro i after
    rw [count] at after
    obtain ⟨j, rfl⟩ := Nat.exists_eq_add_of_le after
    exact ⟨(gone j).1, c, (gone j).2, reads, closes⟩
  · intro i after
    rw [count] at after
    obtain ⟨j, rfl⟩ := Nat.exists_eq_add_of_le after
    have beside := beside_upTo max t source apart (k + j)
    have none' := beside.keeps.cursor.trans (gone j).1
    rw [Nat.succ_add, calls_eq, advance_of_gone none']

section

variable {calls : Nat → Except CursorError Page × CursorTable σ} {cursor : Nat → Cursor σ}

omit [Source σ]

theorem Served.page (positive : 0 < max) (h : Served max id rs stop calls)
    (before : i < (rs.length - 1) / max) :
    ∃ page, (calls i).1 = .ok ⟨id, true, page⟩ ∧ page.length = max := by
  refine ⟨_, (h.full i before).1, ?_⟩
  have more := (more_iff positive i rs.length).1 before
  rw [Nat.succ_mul] at more
  rw [List.length_map, List.length_take, List.length_drop]
  exact Nat.min_eq_left (by omega)

/-- The full pages hold the results that stand first. -/
theorem Served.whole (h : Served max id rs stop calls) {k : Nat}
    (full : k ≤ (rs.length - 1) / max) :
    ((List.range k).flatMap fun i => answered (calls i).1) =
      (rs.take (k * max)).map Found.encode := by
  induction k with
  | zero => rw [Nat.zero_mul, List.take_zero]; rfl
  | succ k ih =>
    rw [List.range_succ, List.flatMap_append, ih (Nat.le_of_succ_le full), List.flatMap_singleton,
      (h.full k full).1, Nat.succ_mul, List.take_add, List.map_append]
    rfl

theorem Served.still (h : Served max id rs stop calls)
    (sole : ∀ i, (calls i).2.Sole id (cursor i) 1) (before : i < (rs.length - 1) / max) :
    (calls i).2.isOpen id = true ∧ (cursor i).closes = 0 := by
  obtain ⟨_, c, found, closes⟩ := h.full i before
  refine ⟨KeyMap.contains_iff.2 ⟨c, found⟩, ?_⟩
  rw [← ((sole i).of_open found).1, closes]

theorem Served.closed (h : Served max id rs stop calls)
    (sole : ∀ i, (calls i).2.Sole id (cursor i) 1) (after : (rs.length - 1) / max ≤ i) :
    (calls i).2.isOpen id = false ∧ (cursor i).reads = rs.length + 1 ∧ (cursor i).closes = 1 := by
  obtain ⟨none, c, history, reads, closes⟩ := h.gone i after
  cases List.singleton_inj.1 ((sole i).history.symm.trans history)
  exact ⟨KeyMap.contains_eq_false_iff.2 none, reads, closes⟩

theorem Served.drained (positive : 0 < max) (h : Served max id rs .ended calls)
    (sole : ∀ i, (calls i).2.Sole id (cursor i) 1) : Drained max id rs calls cursor := by
  constructor <;> rw [pages_eq positive]
  · intro i before
    exact h.page positive (Nat.lt_of_succ_lt_succ before)
  · refine ⟨_, h.stops, ?_⟩
    intro empty
    have few : rs.length ≤ (rs.length - 1) / max * max :=
      List.drop_eq_nil_iff.1 (List.map_eq_nil_iff.1 empty)
    have least : (rs.length - 1) / max * max ≤ rs.length - 1 := Nat.div_mul_le_self ..
    exact List.length_eq_zero_iff.1 (by omega)
  · rw [List.range_succ, List.flatMap_append, h.whole (Nat.le_refl _),
      List.flatMap_singleton, h.stops]
    show _ ++ (rs.drop _).map Found.encode = _
    rw [← List.map_append, List.take_append_drop]
  · intro i before
    exact h.still sole (Nat.lt_of_succ_lt_succ before)
  · intro i after
    exact h.closed sole (Nat.le_of_succ_le_succ after)
  · intro i after
    exact h.later i after

theorem Served.broken {e : LedgerError} (positive : 0 < max)
    (h : Served max id rs (.failed e) calls) (sole : ∀ i, (calls i).2.Sole id (cursor i) 1) :
    Broken max id rs e calls cursor where
  full _ before := h.page positive before
  fails := h.stops
  whole := by
    rw [Nat.mul_comm max]
    exact h.whole (Nat.le_refl _)
  still _ before := h.still sole before
  closed _ after := h.closed sole after
  later := h.later

end

/-- A cursor under a new identifier is opened over any source, and its next page is asked for any
number of times, whatever is done to other cursors in between. Opening it reads the source no more
than once for each result a page takes and once more, and each other call no more than once for each.
If the source ends after some results, or fails, the calls are those of `Drained` or `Broken`. -/
theorem calls_of_cursor {max : Nat} (positive : 0 < max) {t : CursorTable σ} {id : String}
    (new : t.history id = []) (source : σ) {between : Nat → List (CursorOp σ)}
    (apart : ∀ i, ∀ op ∈ between i, op.spares id = true) :
    ∃ cursor : Nat → Cursor σ,
      (∀ i, (t.calls max id source between i).2.history id = [cursor i]) ∧
      (cursor 0).reads ≤ max + 1 ∧ (∀ i, (cursor (i + 1)).reads ≤ (cursor i).reads + max) ∧
      (∀ results last, Source.Yields source results last → (Source.next last).1 = .ok none →
        Drained max id results (t.calls max id source between) cursor) ∧
      ∀ results last e, Source.Yields source results last → (Source.next last).1 = .error e →
        Broken max id results e (t.calls max id source between) cursor := by
  obtain ⟨cursor, sole, first, each⟩ := reads_calls positive new source apart
  refine ⟨cursor, fun i => (sole i).history, first, each, ?_, ?_⟩
  · intro results last yields ends
    have served : Served max id results .ended (t.calls max id source between) :=
      served_calls positive new apart yields ends
    exact served.drained positive sole
  · intro results last e yields fails
    have served : Served max id results (.failed e) (t.calls max id source between) :=
      served_calls positive new apart yields fails
    exact served.broken positive sole

/-- A cursor over three entries that is read in pages of two, while another cursor is opened and
closed in between. After the entries it ends, or fails. -/
def threeEntries : List Found := [.entry { key := "a" }, .entry { key := "b" }, .entry { key := "c" }]

def aside : List (CursorOp Scan) := [.openCursor "2" (Scan.ofResults threeEntries), .close "2"]

theorem calls_of_cursor_threeEntries :
    0 < 2 ∧ ({} : CursorTable Scan).history "1" = [] ∧ (∀ op ∈ aside, op.spares "1" = true) ∧
      (∃ cursor, Drained 2 "1" threeEntries
        (calls 2 {} "1" (Scan.ofResults threeEntries) fun _ => aside) cursor) ∧
      ∃ cursor, Broken 2 "1" threeEntries .cursorClosed
        (calls 2 {} "1" { pending := threeEntries.map .ok ++ [.error .cursorClosed] } fun _ => aside)
        cursor := by
  have apart : ∀ op ∈ aside, op.spares "1" = true := by decide
  obtain ⟨cursor, _, _, _, drained, _⟩ := @calls_of_cursor Scan _ 2 (by decide) {} "1" rfl
    (Scan.ofResults threeEntries) (fun _ => aside) fun _ => apart
  obtain ⟨cursor', _, _, _, _, broken⟩ := @calls_of_cursor Scan _ 2 (by decide) {} "1" rfl
    { pending := threeEntries.map .ok ++ [.error .cursorClosed] } (fun _ => aside) fun _ => apart
  refine ⟨by decide, rfl, apart, ⟨cursor, ?_⟩, cursor', ?_⟩
  · exact drained threeEntries _ (.cons rfl (.cons rfl (.cons rfl (.nil _)))) rfl
  · exact broken threeEntries _ _ (.cons rfl (.cons rfl (.cons rfl (.nil _)))) rfl

end CursorTable

end ContractNode
