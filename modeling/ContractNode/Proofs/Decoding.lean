import ContractNode.Contract.Call
import ContractNode.Message.Basic
import ContractNode.Proofs.Occurrences
import ContractNode.Request.Page

/-!
# Reading what was written

A message that is written field by field is read back as it was, as long as its lengths fit the wire
format.

* `Shape.ReadsBack`, `Shape.Sound` : values that are read back, once they are whole;
* `Layout.Reads` : what reading the fields of a message comes to;
* `Layout.Takes`, `Layout.apply` : what a field that is read makes of a record, and
  `Layout.reads_concat` : a message makes of it what its fields do, one after another;
* `Layout.Restores`, `Layout.reads_write` : what reading a whole record comes to, given its layout;
* `Entry.decode_encode`, `Page.decode_encode` : so are the entries on a page, and pages;
* `Message.decode_encode`, `CallSpec.input_decode_encode` : so are messages, and the arguments of
  any call that was read itself;
* `Layout.holds_of_read` : what holds of everything that is read.
-/

namespace ContractNode

/-! ## Values -/

/-- The body of a message inside an outermost one is taken as it was. -/
theorem Scope.nested_delimit {scope : Scope} (outermost : scope.excess = none)
    (stop : scope.stop < addressLimit) {body : Bytes} (small : body.length < wireLimit)
    (rest : Bytes) :
    ∃ inner, scope.nested (Shape.delimit body ++ rest) = .ok (inner, body, rest) := by
  have bound : body.length < 0x10000000000000000 := Nat.lt_trans small (by decide)
  have inside : ¬ 0x10000000000000000 ≤
      scope.stop - (body ++ rest).length + body.length := by
    rw [List.length_append]
    unfold addressLimit at stop
    unfold wireLimit at small
    omega
  have reaches : scope.exceeds body.length (body ++ rest) = false := by
    rw [exceeds, outermost]
  refine ⟨⟨scope.stop - (body ++ rest).length + body.length, some 0⟩, ?_⟩
  rw [nested, Shape.delimit, List.append_assoc, Varint.decode_encode bound]
  simp only [if_neg inside, reaches, List.take_left, List.drop_left, Nat.sub_self]
  rfl

/-- A value of a shape is read back in a scope. -/
def Shape.ReadsBack {β : Type} (shape : Shape β) (scope : Scope) (v : β) : Prop :=
  ∀ rest, shape.read scope (shape.write v ++ rest) = .ok (some v, rest)

/-- A value is written in the way of its wire type, and is read back if that makes it a whole
one. -/
structure Shape.Sound {β : Type} (shape : Shape β) (scope : Scope) (v : β) : Prop where
  written : shape.wireType.Written (shape.write v)
  back : shape.wireType.Holds (shape.write v) → shape.ReadsBack scope v

namespace Shape

variable {scope : Scope}

theorem bytes_sound (v : Bytes) : Shape.bytes.Sound scope v where
  written := .delimited v
  back holds rest := by
    have small := holds.body_length_lt
    have spelled := Varint.spells_encode (Nat.lt_trans small (by decide))
    simp only [bytes, delimit, scope.delimited_of_spells spelled small]

theorem text_sound (v : String) : Shape.text.Sound scope v where
  written := .delimited (Text.bytes v)
  back holds rest := by
    have small := holds.body_length_lt
    have spelled := Varint.spells_encode (Nat.lt_trans small (by decide))
    simp only [text, delimit, scope.delimited_of_spells spelled small, Text.ofBytes?_bytes]

theorem choice_sound {β : Type} {code : β → Nat} {ofCode? : Nat → Option β} {v : β}
    (small : code v < wireLimit) (known : ofCode? (code v) = some v) :
    (Shape.choice code ofCode?).Sound scope v where
  written := .varint (Nat.lt_trans small (by decide))
  back _ rest := by simp only [choice, Varint.decode32_encode small, known]

theorem bool_sound (v : Bool) : Shape.bool.Sound scope v := by
  have small : v.toNat < 0x100000000 := by cases v <;> decide
  refine ⟨.varint (Nat.lt_trans small (by decide)), fun _ rest => ?_⟩
  simp only [bool, Varint.decode32_encode small]
  cases v <;> rfl

theorem int64_sound (v : Int64) : Shape.int64.Sound scope v := by
  have small : v.toUInt64.toNat < 0x10000000000000000 := v.toUInt64.toNat_lt
  refine ⟨.varint small, fun _ rest => ?_⟩
  simp only [int64, Varint.decode_encode small, UInt64.ofNat_toNat]
  rfl

/-- The low 32 bits of a number are all that its sign repeats. -/
theorem toInt32_of_low (v : Int32) :
    (UInt32.ofNat (v.toInt64.toUInt64.toNat % 0x100000000)).toInt32 = v := by
  have low : UInt32.ofNat (v.toInt64.toUInt64.toNat % 0x100000000) =
      v.toInt64.toUInt64.toUInt32 := by
    apply UInt32.toNat.inj
    simp
  apply Int32.toBitVec.inj
  calc (UInt32.ofNat (v.toInt64.toUInt64.toNat % 0x100000000)).toInt32.toBitVec
      = v.toInt64.toUInt64.toUInt32.toBitVec := congrArg UInt32.toBitVec low
    _ = v.toInt64.toBitVec.setWidth 32 := UInt64.toBitVec_toUInt32 _
    _ = v.toInt64.toBitVec.signExtend 32 :=
      (BitVec.signExtend_eq_setWidth_of_le _ (by decide)).symm
    _ = v.toInt64.toInt32.toBitVec := (Int64.toBitVec_toInt32 _).symm
    _ = v.toBitVec := by rw [Int32.toInt32_toInt64]

/-- A negative number is written with 64 bits, of which 32 are read. -/
theorem int32_sound (v : Int32) : Shape.int32.Sound scope v := by
  have small : v.toInt64.toUInt64.toNat < 0x10000000000000000 := v.toInt64.toUInt64.toNat_lt
  refine ⟨.varint small, fun _ rest => ?_⟩
  simp only [int32, Varint.decode32, Varint.decode_encode small, toInt32_of_low]

end Shape

/-! ## Fields -/

namespace Layout

variable {α β : Type} {layout : Layout α} {scope : Scope} {rest : Bytes} {a a' : α}

/-- Reading the fields of a message into a record comes to another record, however much fuel there
is. -/
def Reads (layout : Layout α) (scope : Scope) (bs : Bytes) (a a' : α) : Prop :=
  ∀ fuel, bs.length ≤ fuel → layout.readFields scope fuel bs a = .ok a'

theorem Reads.nil : layout.Reads scope [] a a := fun fuel _ => by cases fuel <;> rfl

theorem Reads.read {bs : Bytes} (reads : layout.Reads scope bs layout.blank a') :
    layout.read scope bs = .ok a' := reads bs.length (Nat.le_refl _)

def apply (layout : Layout α) (scope : Scope) (o : Occurrence) (a : α) : α :=
  match layout.readField scope o.number o.wireType o.value a with
  | .error _ => a
  | .ok (b, _) => b

/-- A field can be read, whatever the record is and whatever follows. -/
def Takes (layout : Layout α) (scope : Scope) (o : Occurrence) : Prop :=
  ∀ rest a, layout.readField scope o.number o.wireType (o.value ++ rest) a =
    .ok (layout.apply scope o a, rest)

theorem takes_of_reads {o : Occurrence} {u : α → α}
    (reads : ∀ rest a, layout.readField scope o.number o.wireType (o.value ++ rest) a =
      .ok (u a, rest)) : layout.Takes scope o ∧ layout.apply scope o = u := by
  have same : layout.apply scope o = u := funext fun a => by
    have read := reads [] a
    rw [List.append_nil] at read
    rw [apply, read]
  exact ⟨fun rest a => by rw [reads, same], same⟩

theorem takes_of_undeclared {o : Occurrence} (undeclared : layout.field? o.number = none) :
    layout.Takes scope o ∧ layout.apply scope o = id :=
  takes_of_reads fun rest a => by
    simp only [readField, undeclared, Scope.skip_of_completes o.complete]
    rfl

/-- Reading fields one after another makes of a record what each of them makes of it. -/
theorem reads_concat {os : List Occurrence} (takes : ∀ o ∈ os, layout.Takes scope o) :
    layout.Reads scope (Occurrence.concat os) a
      (os.foldl (fun a o => layout.apply scope o a) a) := by
  induction os generalizing a with
  | nil => exact .nil
  | cons o os ih =>
    obtain ⟨first, others⟩ := List.forall_mem_cons.1 takes
    intro fuel enough
    have pos := o.named.spelled.length_pos
    have key := Key.decode_of_spells o.named (o.value ++ Occurrence.concat os)
    rw [Occurrence.concat_cons] at enough ⊢
    simp only [List.length_append] at enough
    obtain ⟨fuel, rfl⟩ : ∃ k, fuel = k + 1 := ⟨fuel - 1, by omega⟩
    have step : layout.readFields scope (fuel + 1)
        (o.key ++ (o.value ++ Occurrence.concat os)) a =
        layout.readFields scope fuel (Occurrence.concat os) (layout.apply scope o a) := by
      generalize o.key ++ (o.value ++ Occurrence.concat os) = bs at key
      cases bs with
      | nil => cases key
      | cons => simp only [readFields, key, first (Occurrence.concat os) a]
    rw [step]
    exact ih others fuel (by omega)

/-- A field that is declared, and has a number that fits. -/
structure Declares (layout : Layout α) (f : Field α) : Prop where
  there : layout.field? f.number = some f
  positive : f.number ≠ 0
  small : f.number < 0x20000000

section Items

variable {f : Field α} {shape : Shape β} {set : β → α → α} {xs : List β}

/-- Values that were written are fields. -/
theorem exists_items (declares : layout.Declares f)
    (holds : ∀ x ∈ xs, shape.wireType.Holds (shape.write x)) :
    ∃ os, xs.flatMap (Field.item f.number shape) = Occurrence.concat os := by
  induction xs with
  | nil => exact ⟨[], rfl⟩
  | cons x xs ih =>
    obtain ⟨first, others⟩ := List.forall_mem_cons.1 holds
    obtain ⟨os, written⟩ := ih others
    refine ⟨.keyed f.number _ _ (.plain first) declares.positive declares.small :: os, ?_⟩
    rw [List.flatMap_cons, written, Occurrence.concat_cons, Field.item, List.append_assoc]
    rfl

/-- Fields at whose start some values of a declared field were written begin with these values,
which are read back. -/
theorem takes_items (declares : layout.Declares f) (type : f.wireType = shape.wireType)
    (stores : f.read = Field.store shape set) (sound : ∀ x ∈ xs, shape.Sound scope x)
    (short : ∀ x ∈ xs, (shape.write x).length < addressLimit) {os : List Occurrence}
    (written : xs.flatMap (Field.item f.number shape) ++ rest = Occurrence.concat os) :
    ∃ os₁ os₂, os = os₁ ++ os₂ ∧ rest = Occurrence.concat os₂ ∧
      (∀ o ∈ os₁, layout.Takes scope o) ∧
      ∀ a, os₁.foldl (fun a o => layout.apply scope o a) a = xs.foldl (fun a x => set x a) a := by
  induction xs generalizing os with
  | nil => exact ⟨[], os, rfl, written, fun _ mem => absurd mem List.not_mem_nil, fun _ => rfl⟩
  | cons x xs ih =>
    obtain ⟨sound, sounds⟩ := List.forall_mem_cons.1 sound
    obtain ⟨short, shorts⟩ := List.forall_mem_cons.1 short
    rw [List.flatMap_cons, List.append_assoc, Field.item] at written
    obtain ⟨o, os, rfl, number, w, value, others⟩ :=
      Occurrence.split declares.positive declares.small sound.written short written
    obtain ⟨os₁, os₂, rfl, left, takes, makes⟩ := ih sounds shorts others
    have holds := sound.written.holds_of_completes (value ▸ w ▸ o.complete)
    obtain ⟨first, set_x⟩ : layout.Takes scope o ∧ layout.apply scope o = set x :=
      takes_of_reads fun rest a => by
        rw [number, w, value, readField, declares.there]
        simp only [type, if_true, stores, Field.store, sound.back holds rest]
    refine ⟨o :: os₁, os₂, rfl, left, List.forall_mem_cons.2 ⟨first, takes⟩, fun a => ?_⟩
    rw [List.foldl_cons, List.foldl_cons, makes, set_x]

/-- Values that are whole are read back one after another. -/
theorem reads_items (declares : layout.Declares f) (type : f.wireType = shape.wireType)
    (stores : f.read = Field.store shape set) (sound : ∀ x ∈ xs, shape.Sound scope x)
    (holds : ∀ x ∈ xs, shape.wireType.Holds (shape.write x)) :
    layout.Reads scope (xs.flatMap (Field.item f.number shape)) a
      (xs.foldl (fun a x => set x a) a) := by
  obtain ⟨os, written⟩ := exists_items declares holds
  obtain ⟨os₁, os₂, rfl, left, takes, makes⟩ := takes_items declares type stores sound
    (fun x mem => (holds x mem).length_lt) ((List.append_nil _).trans written)
  rw [Occurrence.eq_nil_of_concat left.symm, List.append_nil] at written
  rw [written, ← makes]
  exact reads_concat takes

end Items

/-- A field that is read leaves the record as it was, or sets a value that was read. -/
theorem store_cases {shape : Shape β} {set : β → α → α} {bs : Bytes}
    (stored : Field.store shape set scope bs a = .ok (a', rest)) :
    a' = a ∨ ∃ v, shape.read scope bs = .ok (some v, rest) ∧ a' = set v a := by
  unfold Field.store at stored
  split at stored
  · cases stored
  · cases stored
    exact .inl rfl
  · rename_i v rest' read
    cases stored
    exact .inr ⟨v, read, rfl⟩

section Holds

variable {Q : α → Prop}
  (keeps : ∀ f ∈ layout.fields, ∀ bs a a' rest, Q a → f.read scope bs a = .ok (a', rest) → Q a')

include keeps

/-- What every field keeps that is declared is kept by any field: the others are passed over. -/
theorem holds_of_readField {number : Nat} {wireType : WireType} {bs : Bytes} (holds : Q a)
    (read : layout.readField scope number wireType bs a = .ok (a', rest)) : Q a' := by
  unfold readField at read
  split at read
  · cases skipped : scope.skip wireType bs with
    | error e =>
      rw [skipped] at read
      cases read
    | ok rest' =>
      rw [skipped] at read
      cases read
      exact holds
  · rename_i f declared
    split at read
    · exact keeps f (List.mem_of_find?_eq_some declared) _ _ _ _ holds read
    · cases read

theorem holds_of_readFields {fuel : Nat} {bs : Bytes} (holds : Q a)
    (read : layout.readFields scope fuel bs a = .ok a') : Q a' := by
  induction fuel generalizing bs a with
  | zero =>
    cases bs with
    | nil =>
      cases read
      exact holds
    | cons => cases read
  | succ fuel ih =>
    cases bs with
    | nil =>
      cases read
      exact holds
    | cons =>
      simp only [readFields] at read
      split at read
      · cases read
      · split at read
        · cases read
        · rename_i stored
          exact ih (holds_of_readField keeps holds stored) read

/-- What holds of the blank record, and is kept by every field that is declared, holds of every
record that is read. -/
theorem holds_of_read {bs : Bytes} (blank : Q layout.blank)
    (read : layout.read scope bs = .ok a) : Q a := holds_of_readFields keeps blank read

end Holds

end Layout

theorem Shape.length_message {α : Type} (layout : Layout α) (v : α) :
    (layout.write v).length ≤ ((Shape.message layout).write v).length := by
  simp only [message, delimit, List.length_append]
  omega

theorem Field.length_item {β : Type} {number : Nat} {shape : Shape β} {vs : List β} {v : β}
    (mem : v ∈ vs) : (shape.write v).length ≤ (vs.flatMap (Field.item number shape)).length := by
  obtain ⟨before, after, rfl⟩ := List.append_of_mem mem
  simp only [List.flatMap_append, List.flatMap_cons, List.length_append, Field.item]
  omega

/-! ## Records -/

namespace Layout

variable {α : Type} {layout : Layout α} {scope : Scope} {r a a' : α}

/-- The fields of a layout are in ascending order of their numbers, which fit a key. -/
def Ordered (layout : Layout α) : Prop :=
  layout.fields.Pairwise (fun f g => f.number < g.number) ∧
    ∀ f ∈ layout.fields, f.number ≠ 0 ∧ f.number < 0x20000000

instance (layout : Layout α) : Decidable layout.Ordered := inferInstanceAs (Decidable (_ ∧ _))

theorem Ordered.declares (ordered : layout.Ordered) {f : Field α} (mem : f ∈ layout.fields) :
    layout.Declares f := by
  obtain ⟨ascending, fits⟩ := ordered
  refine ⟨?_, (fits f mem).1, (fits f mem).2⟩
  obtain ⟨before, after, split⟩ := List.append_of_mem mem
  rw [field?, List.find?_eq_some_iff_append]
  refine ⟨by simp, before, after, split, fun g there => ?_⟩
  rw [split, List.pairwise_append] at ascending
  have lower := ascending.2.2 g there f List.mem_cons_self
  simpa using Nat.ne_of_lt lower

/-- Reading what some fields of a record `r` were written as turns `a` into `a'`: each of them
writes some values, and sets them one after another when it is read. -/
inductive Restores (scope : Scope) (r : α) : List (Field α) → α → α → Prop
  | nil {a : α} : Restores scope r [] a a
  | cons {β : Type} {f : Field α} {shape : Shape β} {set : β → α → α} {fields : List (Field α)}
      {a a' : α} (xs : List β) (type : f.wireType = shape.wireType)
      (stores : f.read = Field.store shape set)
      (writes : f.write r = xs.flatMap (Field.item f.number shape))
      (sound : ∀ x ∈ xs, shape.Sound scope x)
      (rest : Restores scope r fields (xs.foldl (fun a x => set x a) a) a') :
      Restores scope r (f :: fields) a a'

namespace Restores

variable {β : Type} {number : Nat} {shape : Shape β} {fields : List (Field α)}

/-- A plain field sets its value even where it was left out, for it then holds what it held
before. -/
theorem plain [DecidableEq β] {default : β} {get : α → β} {set : β → α → α}
    (sound : shape.Sound scope (get r)) (same : get r = default → set (get r) a = a)
    (rest : Restores scope r fields (set (get r) a) a') :
    Restores scope r (.plain number shape default get set :: fields) a a' := by
  by_cases left : get r = default
  · rw [same left] at rest
    exact .cons [] rfl rfl (if_pos left) (fun _ mem => absurd mem List.not_mem_nil) rest
  · refine .cons [get r] rfl rfl ?_ (fun x mem => List.mem_singleton.1 mem ▸ sound) rest
    exact (if_neg left).trans (List.append_nil _).symm

theorem optional {get : α → Option β} {set : β → α → α} {b : α}
    (sound : ∀ v, get r = some v → shape.Sound scope v) (unset : get r = none → b = a)
    (given : ∀ v, get r = some v → b = set v a) (rest : Restores scope r fields b a') :
    Restores scope r (.optional number shape get set :: fields) a a' := by
  cases value : get r with
  | none =>
    have nothing : (Field.optional number shape get set).write r = [] := by
      simp only [Field.optional, value]
    rw [unset value] at rest
    exact .cons [] rfl rfl nothing (fun _ mem => absurd mem List.not_mem_nil) rest
  | some v =>
    have written : (Field.optional number shape get set).write r =
        [v].flatMap (Field.item number shape) := by
      simp only [Field.optional, value, List.flatMap_singleton]
    rw [given v value] at rest
    exact .cons [v] rfl rfl written (fun x mem => List.mem_singleton.1 mem ▸ sound v value) rest

theorem repeated {get : α → List β} {add : β → α → α} (sound : ∀ v, shape.Sound scope v)
    (rest : Restores scope r fields ((get r).foldl (fun a v => add v a) a) a') :
    Restores scope r (.repeated number shape get add :: fields) a a' :=
  .cons (get r) rfl rfl rfl (fun v _ => sound v) rest

/-- A record that fits the wire format is written as fields. -/
theorem exists_occurrences (restores : Restores scope r fields a a')
    (declares : ∀ f ∈ fields, layout.Declares f)
    (small : (fields.flatMap fun f => f.write r).length < wireLimit) :
    ∃ os, (fields.flatMap fun f => f.write r) = Occurrence.concat os := by
  induction restores with
  | nil => exact ⟨[], rfl⟩
  | @cons β f shape set fields a a' xs _ _ writes sound _ ih =>
    obtain ⟨first, others⟩ := List.forall_mem_cons.1 declares
    rw [List.flatMap_cons, List.length_append] at small
    have holds : ∀ x ∈ xs, shape.wireType.Holds (shape.write x) := fun x mem => by
      have short : (shape.write x).length ≤ (f.write r).length := writes ▸ Field.length_item mem
      exact (sound x mem).written.holds (by omega)
    obtain ⟨os₁, items⟩ := exists_items first holds
    obtain ⟨os₂, left⟩ := ih others (by omega)
    exact ⟨os₁ ++ os₂, by rw [List.flatMap_cons, left, Occurrence.concat_append, writes, items]⟩

/-- Whatever fields it is written as, each of them is read, and together they make of a record
what is restored. -/
theorem takes (restores : Restores scope r fields a a')
    (declares : ∀ f ∈ fields, layout.Declares f)
    (short : (fields.flatMap fun f => f.write r).length < addressLimit) {os : List Occurrence}
    (written : (fields.flatMap fun f => f.write r) = Occurrence.concat os) :
    (∀ o ∈ os, layout.Takes scope o) ∧
      os.foldl (fun a o => layout.apply scope o a) a = a' := by
  induction restores generalizing os with
  | nil =>
    rw [Occurrence.eq_nil_of_concat written.symm]
    exact ⟨fun _ mem => absurd mem List.not_mem_nil, rfl⟩
  | @cons β f shape set fields a a' xs type stores writes sound _ ih =>
    obtain ⟨first, others⟩ := List.forall_mem_cons.1 declares
    rw [List.flatMap_cons, List.length_append] at short
    rw [List.flatMap_cons, writes] at written
    have shorts : ∀ x ∈ xs, (shape.write x).length < addressLimit := fun x mem => by
      have short : (shape.write x).length ≤ (f.write r).length := writes ▸ Field.length_item mem
      omega
    obtain ⟨os₁, os₂, rfl, left, takes₁, makes⟩ :=
      takes_items first type stores sound shorts written
    obtain ⟨takes₂, made⟩ := ih others (by omega) left
    refine ⟨fun o mem => (List.mem_append.1 mem).elim (takes₁ o) (takes₂ o), ?_⟩
    rw [List.foldl_append, makes, made]

theorem reads (restores : Restores scope r fields a a') (declares : ∀ f ∈ fields, layout.Declares f)
    (small : (fields.flatMap fun f => f.write r).length < wireLimit) :
    layout.Reads scope (fields.flatMap fun f => f.write r) a a' := by
  obtain ⟨os, written⟩ := restores.exists_occurrences declares small
  obtain ⟨takes, made⟩ := restores.takes declares (lt_addressLimit small) written
  rw [written, ← made]
  exact reads_concat takes

end Restores

/-- Reading a record that was written comes to what its fields restore. -/
theorem reads_write (ordered : layout.Ordered) (small : (layout.write r).length < wireLimit)
    (restores : Restores scope r layout.fields layout.blank a) :
    layout.Reads scope (layout.write r) layout.blank a :=
  restores.reads (fun _ mem => ordered.declares mem) small

end Layout

theorem Shape.message_sound {α : Type} {layout : Layout α} {scope : Scope} {v : α}
    (ordered : layout.Ordered)
    (restores : ∀ inner, Layout.Restores inner v layout.fields layout.blank v)
    (outermost : scope.excess = none) (stop : scope.stop < addressLimit) :
    (Shape.message layout).Sound scope v where
  written := .delimited (layout.write v)
  back holds rest := by
    have small := holds.body_length_lt
    obtain ⟨inner, nested⟩ := Scope.nested_delimit outermost stop small rest
    simp only [message, nested, (Layout.reads_write ordered small (restores inner)).read]

theorem Codec.decode_encode_plain {α : Type} {name : String} {layout : Layout α} {r a : α}
    (ordered : layout.Ordered) (small : (layout.write r).length < wireLimit)
    (restores : Layout.Restores (Scope.whole (layout.write r)) r layout.fields layout.blank a) :
    (Codec.plain name layout).decode ((Codec.plain name layout).encode r) = .ok a := by
  have read : layout.read (Scope.whole (layout.write r)) (layout.write r) = .ok a :=
    (Layout.reads_write ordered small restores).read
  simp only [plain, decode, encode, id, read]

/-! ## Entries and pages -/

theorem Entry.restores (e : Entry) (scope : Scope) : Layout.Restores scope e layout.fields {} e :=
  .plain (Shape.text_sound _) (fun same => by rw [same]) <|
  .plain (Shape.text_sound _) (fun same => by rw [same]) <|
  .plain (Shape.bytes_sound _) (fun same => by rw [same]) .nil

theorem Entry.decode_encode {e : Entry} (small : (Entry.codec.encode e).length < wireLimit) :
    Entry.codec.decode (Entry.codec.encode e) = .ok e :=
  Codec.decode_encode_plain (by decide) small (e.restores _)

theorem Page.results_append (p : Page) (vs : List Bytes) :
    vs.foldl (fun p v => { p with results := p.results ++ [v] }) p =
      { p with results := p.results ++ vs } := by
  induction vs generalizing p with
  | nil => simp
  | cons v vs ih => simp [ih]

/-- What is written for a result on a page is no longer than what is written for the page. -/
theorem Page.length_result {p : Page} {v : Bytes} (mem : v ∈ p.results) :
    ((Shape.message resultLayout).write v).length ≤ (Page.codec.encode p).length := by
  have listed : ((Shape.message resultLayout).write v).length ≤
      (p.results.flatMap (Field.item 1 (.message resultLayout))).length := Field.length_item mem
  show _ ≤ (Page.layout.write p).length
  simp only [Layout.write, layout, List.flatMap_cons, List.length_append, Field.repeated]
  omega

theorem Page.length_of_mem {p : Page} {v : Bytes} (mem : v ∈ p.results) :
    v.length ≤ (Page.codec.encode p).length := by
  have written : v.length ≤ (resultLayout.write v).length := by
    cases v with
    | nil => exact Nat.zero_le _
    | cons b bs =>
      have framed : resultLayout.write (b :: bs) =
          Key.encode 1 .delimited ++ Shape.delimit (b :: bs) ++ [] := rfl
      rw [framed, Shape.delimit]
      simp only [List.length_append]
      omega
  exact Nat.le_trans written (Nat.le_trans (Shape.length_message ..) (Page.length_result mem))

/-- A result on a page is read back as it was. -/
theorem Page.result_sound {scope : Scope} (outermost : scope.excess = none)
    (stop : scope.stop < addressLimit) (v : Bytes) : (Shape.message resultLayout).Sound scope v :=
  Shape.message_sound (by decide)
    (fun _ => .plain (Shape.bytes_sound _) (fun same => same) .nil) outermost stop

theorem Page.restores {p : Page} {scope : Scope} (outermost : scope.excess = none)
    (stop : scope.stop < addressLimit) : Layout.Restores scope p layout.fields {} p := by
  refine .repeated (result_sound outermost stop) ?_
  rw [results_append]
  exact .plain (Shape.bool_sound _) (fun same => by rw [same]) <|
    .plain (Shape.text_sound _) (fun same => by rw [same]) .nil

theorem Page.decode_encode {p : Page} (small : (Page.codec.encode p).length < wireLimit) :
    Page.codec.decode (Page.codec.encode p) = .ok p :=
  Codec.decode_encode_plain (by decide) small (restores rfl (lt_addressLimit small))

/-! ## Messages -/

theorem SignedProposal.restores (p : SignedProposal) (scope : Scope) :
    Layout.Restores scope p layout.fields {} p :=
  .plain (Shape.bytes_sound _) (fun same => by rw [same]) <|
  .plain (Shape.bytes_sound _) (fun same => by rw [same]) .nil

theorem MessageKind.code_lt (k : MessageKind) : k.code < wireLimit := by cases k <;> decide

theorem Message.restores {m : Message} {scope : Scope} (outermost : scope.excess = none)
    (stop : scope.stop < addressLimit) :
    Layout.Restores scope m layout.fields { kind := .undefined } m :=
  .plain (Shape.choice_sound m.kind.code_lt m.kind.ofCode?_code)
    (fun same => by rw [same]) <|
  .plain (Shape.bytes_sound _) (fun same => by rw [same]) <|
  .plain (Shape.text_sound _) (fun same => by rw [same]) <|
  .optional (b := { m with channel := "" })
    (fun p _ => Shape.message_sound (by decide) p.restores outermost stop)
    (fun none => by rw [← none]) (fun p given => by rw [← given]) <|
  .plain (Shape.text_sound _) (fun same => by rw [same]) .nil

theorem Message.decode_encode {m : Message} (small : (codec.encode m).length < wireLimit) :
    codec.decode (codec.encode m) = .ok m :=
  Codec.decode_encode_plain (by decide) small (restores rfl (lt_addressLimit small))

/-! ## Calls -/

theorem CallInput.args_append (c : CallInput) (vs : List Bytes) :
    vs.foldl (fun c v => { c with args := c.args ++ [v] }) c = { c with args := c.args ++ vs } := by
  induction vs generalizing c with
  | nil => simp
  | cons v vs ih => simp [ih]

theorem CallInput.ordered : layout.Ordered := by decide

def CallInput.Fits (c : CallInput) : Prop := ∀ v ∈ c.args, v.length < wireLimit

theorem CallInput.fits_blank : CallInput.Fits {} := fun _ mem => absurd mem List.not_mem_nil

/-- The arguments of a call are read back if they fit the wire format. -/
theorem CallInput.reads {c : CallInput} (fits : c.Fits) (scope : Scope) :
    layout.Reads scope (layout.write c) {} c := by
  have holds : ∀ v ∈ c.args, Shape.bytes.wireType.Holds (Shape.bytes.write v) := fun v mem =>
    .delimited (Varint.spells_encode (Nat.lt_trans (fits v mem) (by decide))) (fits v mem)
  have read : layout.Reads scope _ {} _ := Layout.reads_items (ordered.declares List.mem_cons_self)
    rfl rfl (fun v _ => Shape.bytes_sound v) holds
  rw [args_append] at read
  show layout.Reads _ (_ ++ []) {} c
  rw [List.append_nil]
  exact read

theorem CallInput.decode_encode {c : CallInput} (fits : c.Fits) :
    codec.decode (codec.encode c) = .ok c := by
  have read : layout.read (Scope.whole (layout.write c)) (layout.write c) = .ok c :=
    (reads fits _).read
  simp only [codec, Codec.plain, Codec.decode, Codec.encode, id, read]

/-- A value that is preceded by its length is no longer than can be said. -/
theorem Scope.length_of_delimited {scope : Scope} {bs body rest : Bytes}
    (read : scope.delimited bs = .ok (body, rest)) : body.length < wireLimit := by
  unfold delimited at read
  split at read
  · cases read
  · rename_i n _ decoded
    have bound : n < wireLimit := by
      unfold Varint.decode32 at decoded
      split at decoded
      · cases decoded
      · cases decoded
        exact Nat.mod_lt _ (by decide)
    unfold take at read
    split at read
    · cases read
      exact Nat.lt_of_le_of_lt (List.length_take_le ..) bound
    · split at read
      · cases read
      · split at read
        all_goals cases read

theorem Shape.length_of_bytes {scope : Scope} {bs v rest : Bytes}
    (read : Shape.bytes.read scope bs = .ok (some v, rest)) : v.length < wireLimit := by
  simp only [bytes] at read
  split at read
  · cases read
  · rename_i delimited
    cases read
    exact Scope.length_of_delimited delimited

theorem Shape.read_of_message {α : Type} {layout : Layout α} {scope : Scope} {bs rest : Bytes}
    {v : α} (read : (Shape.message layout).read scope bs = .ok (some v, rest)) :
    ∃ inner body, layout.read inner body = .ok v := by
  simp only [message] at read
  split at read
  · cases read
  · split at read
    · cases read
    · rename_i fields
      cases read
      exact ⟨_, _, fields⟩

/-- Arguments that are read fit the wire format. -/
theorem CallInput.fits_of_read {scope : Scope} {bs : Bytes} {c : CallInput}
    (read : layout.read scope bs = .ok c) : c.Fits := by
  refine Layout.holds_of_read ?_ fits_blank read
  intro f mem bs c c' rest fits stored
  rw [List.mem_singleton.1 mem] at stored
  simp only [Field.repeated] at stored
  rcases Layout.store_cases stored with rfl | ⟨v, given, rfl⟩
  · exact fits
  · intro v' there
    rcases List.mem_append.1 there with there | there
    · exact fits v' there
    · cases List.mem_singleton.1 there
      exact Shape.length_of_bytes given

theorem CallSpec.fits_of_read {scope : Scope} {bs : Bytes} {d : CallDraft}
    (read : layout.read scope bs = .ok d) : ∀ c, d.input = some c → c.Fits := by
  refine Layout.holds_of_read (Q := fun d => ∀ c, d.input = some c → c.Fits) ?_
    (fun _ unset => nomatch unset) read
  intro f mem bs d d' rest fits stored
  simp only [layout, List.mem_cons, List.not_mem_nil, or_false] at mem
  rcases mem with rfl | rfl
  all_goals simp only [Field.optional] at stored
  · rcases Layout.store_cases stored with rfl | ⟨_, _, rfl⟩
    · exact fits
    · exact fits
  · rcases Layout.store_cases stored with rfl | ⟨c, given, rfl⟩
    · exact fits
    · rintro c' same
      cases same
      obtain ⟨inner, body, read⟩ := Shape.read_of_message given
      exact CallInput.fits_of_read read

/-- The arguments of a call that was read are read back as they were. -/
theorem CallSpec.input_decode_encode {bs : Bytes} {spec : CallSpec}
    (decoded : codec.decode bs = .ok spec) :
    CallInput.codec.decode (CallInput.codec.encode spec.input) = .ok spec.input := by
  refine CallInput.decode_encode ?_
  unfold Codec.decode at decoded
  split at decoded
  · cases decoded
  · rename_i d read
    change ofDraft d = _ at decoded
    unfold ofDraft at decoded
    split at decoded
    · cases decoded
    · cases decoded
      cases input : d.input with
      | none => exact CallInput.fits_blank
      | some c => exact fits_of_read read c input

end ContractNode
