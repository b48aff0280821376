import ContractNode.Proofs.Formats
import Mathlib.Data.List.Pairwise
import Mathlib.Logic.Function.Conjugate

/-!
# The order of fields does not matter

A message reads the same when its fields come in another order, as long as those of one number keep
theirs, and when fields stand between them that nobody declared.

* `Rearranges` : some fields are others in another order, with more of them in between;
* `Rearranges.foldl_eq` : steps that do nothing for other numbers, and commute for different ones,
  come to the same;
* `Field.Apart`, `Layout.Independent` : two fields, and all fields of a layout, that do not see each
  other;
* `Layout.Restores.reads_rearranged` : a record is restored from its fields in any order;
* `Format.decode_rearranged` : so is the value of every format.
-/

namespace ContractNode

/-! ## Other orders -/

/-- Some fields come in another order: for each of the given numbers there are the same fields of that
number, in the order in which they were. Fields of other numbers may stand anywhere. -/
def Rearranges (numbers : List Nat) (os os' : List Occurrence) : Prop :=
  ∀ n ∈ numbers, os'.filter (·.number = n) = os.filter (·.number = n)

instance (numbers : List Nat) (os os' : List Occurrence) : Decidable (Rearranges numbers os os') :=
  inferInstanceAs (Decidable (∀ _ ∈ _, _))

namespace Rearranges

variable {numbers : List Nat} {os os' : List Occurrence} {o : Occurrence}

theorem mem (rearranges : Rearranges numbers os os') (there : o ∈ os')
    (given : o.number ∈ numbers) : o ∈ os := by
  have kept : o ∈ os'.filter (·.number = o.number) := List.mem_filter.2 ⟨there, by simp⟩
  rw [rearranges _ given] at kept
  exact (List.mem_filter.1 kept).1

/-- A first field of another number can be left out. -/
theorem tail_of_other (rearranges : Rearranges numbers (o :: os) os')
    (other : o.number ∉ numbers) : Rearranges numbers os os' := fun n mem => by
  have apart : ¬ o.number = n := fun same => other (same ▸ mem)
  rw [rearranges n mem, List.filter_cons_of_neg (by simpa using apart)]

/-- A first field of a given number is found again, with fields of other numbers before it, and can
be left out of both. -/
theorem exists_split (rearranges : Rearranges numbers (o :: os) os') (given : o.number ∈ numbers) :
    ∃ before after, os' = before ++ o :: after ∧ (∀ o' ∈ before, o'.number ≠ o.number) ∧
      Rearranges numbers os (before ++ after) := by
  have first := rearranges _ given
  rw [List.filter_cons_of_pos (by simp), List.filter_eq_cons_iff] at first
  obtain ⟨before, after, rfl, apart, -, rest⟩ := first
  have apart : ∀ o' ∈ before, o'.number ≠ o.number := fun o' mem => by simpa using apart o' mem
  refine ⟨before, after, rfl, apart, fun n mem => ?_⟩
  by_cases same : o.number = n
  · subst same
    have none : before.filter (·.number = o.number) = [] :=
      List.filter_eq_nil_iff.2 fun o' mem => by simpa using apart o' mem
    rw [List.filter_append, none, List.nil_append, rest]
  · have others := rearranges n mem
    rwa [List.filter_cons_of_neg (by simpa using same), List.filter_append,
      List.filter_cons_of_neg (by simpa using same), ← List.filter_append] at others

section Folds

variable {α : Type} {act : Occurrence → α → α}

theorem foldl_idle (idle : ∀ o ∈ os, act o = id) (a : α) :
    os.foldl (fun a o => act o a) a = a := by
  induction os with
  | nil => rfl
  | cons o os ih =>
    obtain ⟨first, others⟩ := List.forall_mem_cons.1 idle
    rw [List.foldl_cons, first]
    exact ih others

/-- What commutes with each of some fields can be done before all of them as well as after. -/
theorem foldl_commute {before : List Occurrence}
    (commute : ∀ o' ∈ before, Function.Commute (act o) (act o')) (a : α) :
    before.foldl (fun a o => act o a) (act o a) = act o (before.foldl (fun a o => act o a) a) := by
  induction before generalizing a with
  | nil => rfl
  | cons o' before ih =>
    obtain ⟨first, others⟩ := List.forall_mem_cons.1 commute
    rw [List.foldl_cons, List.foldl_cons, ← first a]
    exact ih others _

/-- Fields of different numbers may change places, and fields of other numbers come and go, where
the first commute and the second do nothing. -/
theorem foldl_eq (rearranges : Rearranges numbers os os')
    (idle : ∀ o : Occurrence, o.number ∉ numbers → act o = id)
    (commute : ∀ o o' : Occurrence, o.number ≠ o'.number → Function.Commute (act o) (act o'))
    (a : α) : os'.foldl (fun a o => act o a) a = os.foldl (fun a o => act o a) a := by
  induction os generalizing os' a with
  | nil =>
    exact foldl_idle (fun o mem =>
      idle o fun given => List.not_mem_nil (rearranges.mem mem given)) a
  | cons o os ih =>
    by_cases given : o.number ∈ numbers
    · -- among the others it is brought to the front, past fields of other numbers
      obtain ⟨before, after, rfl, apart, rest⟩ := rearranges.exists_split given
      have moved := foldl_commute (fun o' mem => commute o o' (apart o' mem).symm) a
      rw [List.foldl_append, List.foldl_cons, ← moved, ← List.foldl_append, ih rest]
      rfl
    · rw [List.foldl_cons, idle o given]
      exact ih (rearranges.tail_of_other given) a

end Folds

end Rearranges

/-! ## Fields that do not see each other -/

namespace Field

variable {α β γ : Type} {f g : Field α}

/-- What a value that is read makes of a record. -/
def effect (f : Field α) (scope : Scope) (bs : Bytes) (a : α) : α :=
  match f.read scope bs a with
  | .error _ => a
  | .ok (b, _) => b

theorem effect_of_stores {shape : Shape β} {set : β → α → α} (stores : f.read = store shape set)
    (scope : Scope) (bs : Bytes) : f.effect scope bs = id ∨ ∃ v, f.effect scope bs = set v := by
  unfold effect
  rw [stores]
  cases read : shape.read scope bs with
  | error => exact .inl (funext fun _ => by simp only [store, read, id])
  | ok found =>
    obtain ⟨_ | v, rest⟩ := found
    · exact .inl (funext fun _ => by simp only [store, read, id])
    · exact .inr ⟨v, funext fun _ => by simp only [store, read]⟩

/-- It does not matter which of two fields is read first. -/
def Apart (f g : Field α) : Prop :=
  ∀ scope bs bs', Function.Commute (f.effect scope bs) (g.effect scope bs')

theorem Apart.symm (apart : f.Apart g) : g.Apart f := fun scope bs bs' =>
  (apart scope bs' bs).symm

instance : Std.Symm (Apart (α := α)) := ⟨fun _ _ => Apart.symm⟩

theorem apart_of_stores {shape : Shape β} {shape' : Shape γ} {set : β → α → α} {set' : γ → α → α}
    (stores : f.read = store shape set) (stores' : g.read = store shape' set')
    (commute : ∀ v v', Function.Commute (set v) (set' v')) : f.Apart g := fun scope bs bs' => by
  rcases effect_of_stores stores scope bs with idle | ⟨v, sets⟩
  · rw [idle]
    exact .id_left
  · rcases effect_of_stores stores' scope bs' with idle | ⟨v', sets'⟩
    · rw [idle]
      exact .id_right
    · rw [sets, sets']
      exact commute v v'

end Field

namespace Layout

variable {α : Type} {layout : Layout α} {scope : Scope} {r a : α} {o o' : Occurrence}

def numbers (layout : Layout α) : List Nat := layout.fields.map Field.number

theorem field?_eq_none {n : Nat} (undeclared : n ∉ layout.numbers) : layout.field? n = none := by
  refine List.find?_eq_none.2 fun f mem same => undeclared ?_
  exact List.mem_map.2 ⟨f, mem, by simpa using same⟩

/-- It does not matter in which order the fields of a layout are read. -/
def Independent (layout : Layout α) : Prop := layout.fields.Pairwise Field.Apart

theorem apply_cases (layout : Layout α) (scope : Scope) (o : Occurrence) :
    layout.apply scope o = id ∨
      ∃ f ∈ layout.fields, f.number = o.number ∧ layout.apply scope o = f.effect scope o.value := by
  cases declared : layout.field? o.number with
  | none => exact .inl (takes_of_undeclared declared).2
  | some f =>
    by_cases type : o.wireType = f.wireType
    · refine .inr ⟨f, List.mem_of_find?_eq_some declared, ?_, funext fun a => ?_⟩
      · simpa using List.find?_some declared
      · have found : layout.readField scope o.number o.wireType o.value a =
            f.read scope o.value a := by
          simp only [readField, declared, if_pos type]
        rw [apply, found]
        rfl
    · exact .inl (funext fun a => by simp only [apply, readField, declared, if_neg type, id])

theorem Independent.apply_commute (independent : layout.Independent)
    (apart : o.number ≠ o'.number) :
    Function.Commute (layout.apply scope o) (layout.apply scope o') := by
  rcases layout.apply_cases scope o with idle | ⟨f, mem, number, does⟩
  · rw [idle]
    exact .id_left
  · rcases layout.apply_cases scope o' with idle | ⟨g, mem', number', does'⟩
    · rw [idle]
      exact .id_right
    · have other : f ≠ g := fun same => apart (by rw [← number, ← number', same])
      rw [does, does']
      exact independent.forall mem mem' other _ _ _

/-- A record is restored from its fields in any order, whatever else there is. -/
theorem Restores.reads_rearranged (restores : Restores scope r layout.fields layout.blank a)
    (ordered : layout.Ordered) (independent : layout.Independent)
    (short : (layout.write r).length < addressLimit) {os os' : List Occurrence}
    (written : layout.write r = Occurrence.concat os)
    (rearranges : Rearranges layout.numbers os os') :
    layout.Reads scope (Occurrence.concat os') layout.blank a := by
  obtain ⟨takes, made⟩ := restores.takes (fun _ => ordered.declares) short written
  have takes' : ∀ o ∈ os', layout.Takes scope o := fun o mem => by
    by_cases declared : o.number ∈ layout.numbers
    · exact takes o (rearranges.mem mem declared)
    · exact (takes_of_undeclared (field?_eq_none declared)).1
  rw [← made, ← rearranges.foldl_eq
    (fun o other => (takes_of_undeclared (field?_eq_none other)).2)
    (fun o o' => independent.apply_commute)]
  exact reads_concat takes'

end Layout

/-! ## All formats -/

namespace Occurrence

def sized (number : Nat) (body : Bytes) (short : (Shape.delimit body).length < wireLimit)
    (positive : number ≠ 0) (small : number < 0x20000000) : Occurrence :=
  keyed number .delimited _ (.plain ((WireType.Written.delimited body).holds short)) positive small

def numeral (number n : Nat) (short : n < 0x10000000000000000) (positive : number ≠ 0)
    (small : number < 0x20000000) : Occurrence :=
  keyed number .varint _ (.plain (.varint (Varint.spells_encode short))) positive small

end Occurrence

namespace Format

theorem ordered (f : Format) : f.codec.layout.Ordered := by
  cases f <;> decide

/-- Each field of a format sets a member of its own. -/
theorem independent (f : Format) : f.codec.layout.Independent := by
  unfold Layout.Independent
  cases f
  all_goals
    -- one goal for each two fields
    repeat' first
      | exact Field.apart_of_stores rfl rfl fun _ _ _ => rfl
      | exact List.forall_mem_nil _
      | exact .nil
      | refine List.forall_mem_cons.2 ⟨?_, ?_⟩
      | refine .cons ?_ ?_

/-- The fields of a value restore the same in whatever message they are read, and that is the value
as it is read. -/
theorem exists_restores (f : Format) (v : f.Value) :
    ∃ d, f.codec.complete d = .ok (f.canonical v) ∧
      ∀ scope : Scope, scope.excess = none → scope.stop < addressLimit →
        Layout.Restores scope (f.codec.draft v) f.codec.layout.fields f.codec.layout.blank d := by
  cases f with
  | keyRead | keyDelete => exact ⟨_, rfl, fun scope _ _ => KeyRef.restores v scope⟩
  | keyWrite => exact ⟨_, rfl, fun scope _ _ => KeyWrite.restores v scope⟩
  | keyRange => exact ⟨_, rfl, fun scope _ _ => KeyRange.restores v scope⟩
  | keyQuery => exact ⟨_, rfl, fun scope _ _ => KeyQuery.restores v scope⟩
  | keyHistory => exact ⟨_, rfl, fun scope _ _ => KeyHistory.restores v scope⟩
  | cursorNext | cursorClose => exact ⟨_, rfl, fun scope _ _ => CursorRef.restores v scope⟩
  | page => exact ⟨_, rfl, fun _ outermost stop => Page.restores outermost stop⟩
  | entry => exact ⟨_, rfl, fun scope _ _ => Entry.restores v scope⟩
  | change => exact ⟨_, rfl, fun scope _ _ => Change.restores v scope⟩
  | contractId => exact ⟨_, rfl, fun scope _ _ => ContractId.restores v scope⟩
  | callInput => exact ⟨_, rfl, fun scope _ _ => CallInput.restores v scope⟩
  | callSpec => exact ⟨_, rfl, fun _ outermost stop => CallDraft.restores outermost stop⟩
  | signedProposal => exact ⟨_, rfl, fun scope _ _ => SignedProposal.restores v scope⟩
  | proposal => exact ⟨_, rfl, fun scope _ _ => Proposal.restores v scope⟩
  | message => exact ⟨_, rfl, fun _ outermost stop => Message.restores outermost stop⟩

/-- In every format, the bytes of a value decode to the same when their fields come in another
order, those of one number in theirs, and when other fields stand between them whose number the
format does not declare: to the value itself, but for an empty collection, which is read as none.
The bytes are a sequence of fields if they fit the wire format; byte strings are always shorter than
`addressLimit`. -/
theorem decode_rearranged (f : Format) (v : f.Value)
    (addressable : (f.codec.encode v).length < addressLimit) :
    ((f.codec.encode v).length < wireLimit → ∃ os, f.codec.encode v = Occurrence.concat os) ∧
    ∀ os os', f.codec.encode v = Occurrence.concat os →
      Rearranges f.codec.layout.numbers os os' →
      (Occurrence.concat os').length < addressLimit →
      f.codec.decode (Occurrence.concat os') = f.codec.decode (f.codec.encode v) ∧
        f.codec.decode (f.codec.encode v) = .ok (f.canonical v) := by
  obtain ⟨d, complete, restores⟩ := f.exists_restores v
  refine ⟨fun small => ?_, fun os os' written rearranges short => ?_⟩
  · exact (restores (Scope.whole []) rfl (by decide)).exists_occurrences
      (fun _ => f.ordered.declares) small
  · have read : ∀ {os'}, Rearranges f.codec.layout.numbers os os' →
        (Occurrence.concat os').length < addressLimit →
        f.codec.decode (Occurrence.concat os') = .ok (f.canonical v) := fun rearranges short => by
      have reads := (restores (Scope.whole _) rfl short).reads_rearranged f.ordered f.independent
        addressable written rearranges
      simp only [Codec.decode, reads.read, complete]
    -- the order in which they were written is one of those in which they may come
    have plain := read (fun _ _ => rfl) (written ▸ addressable)
    rw [written, read rearranges short, plain]
    exact ⟨rfl, rfl⟩

/-- The fields of a page of two results, after which others follow. -/
def pageFields : List Occurrence := [
  .sized 1 [10, 1, 7] (by decide) (by decide) (by decide),
  .sized 1 [10, 1, 8] (by decide) (by decide) (by decide),
  .numeral 2 1 (by decide) (by decide) (by decide),
  .sized 3 [99] (by decide) (by decide) (by decide)]

/-- A group with a single field in it. -/
theorem completes_group : WireType.Completes .startGroup
    (Key.encode 1 .fixed32 ++ ([1, 2, 3, 4] ++ []) ++ Key.encode 9 .endGroup) :=
  .group (.cons (Key.spells_encode (by decide) (by decide) _) (.fixed32 rfl) .nil)
    (Key.spells_encode (by decide) (by decide) _)

/-- The same fields in another order, with some of each kind between them that no page has. The
first of these is a number that takes more bytes than it needs. -/
def shuffledFields : List Occurrence := [
  .keyed 4 .varint [0x87, 0] (.plain (.varint (.more (by decide) (.last (by decide)))))
    (by decide) (by decide),
  .sized 3 [99] (by decide) (by decide) (by decide),
  .sized 1 [10, 1, 7] (by decide) (by decide) (by decide),
  .keyed 9 .startGroup _ completes_group (by decide) (by decide),
  .keyed 5 .fixed32 [1, 2, 3, 4] (.plain (.fixed32 rfl)) (by decide) (by decide),
  .sized 1 [10, 1, 8] (by decide) (by decide) (by decide),
  .keyed 6 .fixed64 [1, 2, 3, 4, 5, 6, 7, 8] (.plain (.fixed64 rfl)) (by decide) (by decide),
  .numeral 2 1 (by decide) (by decide) (by decide),
  .sized 7 [10, 1] (by decide) (by decide) (by decide)]

/-- A page is read as before where its identifier comes first, and fields of all kinds stand between
the others. -/
theorem decode_rearranged_page :
    Page.codec.encode ⟨"c", true, [[7], [8]]⟩ = Occurrence.concat pageFields ∧
    Rearranges Page.layout.numbers pageFields shuffledFields ∧
    Occurrence.concat shuffledFields =
      [32, 0x87, 0, 26, 1, 99, 10, 3, 10, 1, 7, 75, 13, 1, 2, 3, 4, 76, 45, 1, 2, 3, 4,
        10, 3, 10, 1, 8, 49, 1, 2, 3, 4, 5, 6, 7, 8, 16, 1, 58, 2, 10, 1] ∧
    Page.codec.decode (Occurrence.concat shuffledFields) = .ok ⟨"c", true, [[7], [8]]⟩ := by
  have written : Page.codec.encode ⟨"c", true, [[7], [8]]⟩ = Occurrence.concat pageFields := by
    decide +kernel
  have rearranges : Rearranges Page.layout.numbers pageFields shuffledFields := by
    decide +kernel
  have bytes : Occurrence.concat shuffledFields =
      [32, 0x87, 0, 26, 1, 99, 10, 3, 10, 1, 7, 75, 13, 1, 2, 3, 4, 76, 45, 1, 2, 3, 4,
        10, 3, 10, 1, 8, 49, 1, 2, 3, 4, 5, 6, 7, 8, 16, 1, 58, 2, 10, 1] := by
    decide +kernel
  have addressable : (Page.codec.encode ⟨"c", true, [[7], [8]]⟩).length < addressLimit := by
    decide +kernel
  obtain ⟨same, plain⟩ :=
    (decode_rearranged .page _ addressable).2 _ _ written rearranges (by rw [bytes]; decide)
  exact ⟨written, rearranges, bytes, same.trans plain⟩

end Format

end ContractNode
