import ContractNode.Wire.Layout

/-!
# Fields as they stand in the bytes

A message is a sequence of fields, each a key followed by a value, and a value shows by itself where
it ends.

* `WireType.Holds`, `WireType.Completes` : the bytes that are a whole value of a wire type, where a
  group holds anything but a group;
* `Scope.skip_of_completes` : such a value is passed over by just its length;
* `WireType.Written`, `Written.split` : a value that was written is found again at the start of a
  well-formed one;
* `Occurrence`, `Occurrence.concat` : a well-formed field, and some of them one after another;
* `Occurrence.split` : a field that was written at the start of a message is the first of its
  fields.
-/

namespace ContractNode

/-- The first length that does not fit the wire format. -/
def wireLimit : Nat := 0x100000000

/-- The first length that byte strings cannot have: the positions in them are counted with 63
bits. -/
def addressLimit : Nat := 0x8000000000000000

theorem lt_addressLimit {n : Nat} (small : n < wireLimit) : n < addressLimit :=
  Nat.lt_trans small (by decide)

/-! ## Values -/

/-- Some bytes are a whole value that is no group. -/
inductive WireType.Holds : WireType → Bytes → Prop
  | varint {bs : Bytes} {n : Nat} (spelled : Varint.Spells 10 bs n) : Holds .varint bs
  | fixed64 {bs : Bytes} (length : bs.length = 8) : Holds .fixed64 bs
  | delimited {size body : Bytes} (spelled : Varint.Spells 10 size body.length)
      (small : body.length < wireLimit) : Holds .delimited (size ++ body)
  | fixed32 {bs : Bytes} (length : bs.length = 4) : Holds .fixed32 bs

theorem WireType.Holds.length_lt {w : WireType} {bs : Bytes} (holds : w.Holds bs) :
    bs.length < addressLimit := by
  cases holds with
  | varint spelled => exact Nat.lt_of_le_of_lt spelled.length_le (by decide)
  | fixed64 length | fixed32 length => rw [length]; decide
  | delimited spelled small =>
    have size := spelled.length_le
    rw [List.length_append]
    unfold wireLimit at small
    unfold addressLimit
    omega

/-- Some bytes are fields one after another, none of which is a group. -/
inductive Ungrouped : Bytes → Prop
  | nil : Ungrouped []
  | cons {number : Nat} {w : WireType} {key value rest : Bytes} (named : Key.Spells key number w)
      (holds : w.Holds value) (others : Ungrouped rest) : Ungrouped (key ++ (value ++ rest))

/-- Some bytes are a whole value. A group holds fields that are no groups, up to the key that ends
it. -/
inductive WireType.Completes : WireType → Bytes → Prop
  | plain {w : WireType} {bs : Bytes} (holds : w.Holds bs) : Completes w bs
  | group {number : Nat} {fields stop : Bytes} (plain : Ungrouped fields)
      (ends : Key.Spells stop number .endGroup) : Completes .startGroup (fields ++ stop)

namespace Scope

variable {scope : Scope} {w : WireType}

theorem take_append (scope : Scope) (body rest : Bytes) :
    scope.take body.length (body ++ rest) = .ok (body, rest) := by
  have fits : body.length ≤ (body ++ rest).length := by simp
  rw [take, if_pos fits, List.take_left, List.drop_left]

/-- A value that is preceded by its length is taken as it is. -/
theorem delimited_of_spells (scope : Scope) {size body : Bytes}
    (spelled : Varint.Spells 10 size body.length) (small : body.length < wireLimit)
    (rest : Bytes) : scope.delimited (size ++ body ++ rest) = .ok (body, rest) := by
  rw [delimited, List.append_assoc, Varint.decode32_of_spells spelled small]
  exact scope.take_append body rest

theorem dropFixed_append (bs rest : Bytes) : dropFixed bs.length (bs ++ rest) = .ok rest := by
  have fits : bs.length ≤ (bs ++ rest).length := by simp
  rw [dropFixed, if_pos fits, List.drop_left]

theorem skipPlain_of_holds (scope : Scope) {bs : Bytes} (holds : w.Holds bs) (rest : Bytes) :
    scope.skipPlain w (bs ++ rest) = .ok rest := by
  cases holds with
  | varint spelled => rw [skipPlain, Varint.decode_of_spells spelled]; rfl
  | fixed64 length => rw [skipPlain, ← length, dropFixed_append]
  | delimited spelled small => rw [skipPlain, scope.delimited_of_spells spelled small]; rfl
  | fixed32 length => rw [skipPlain, ← length, dropFixed_append]

/-- The fields of a group are passed over up to its end. -/
theorem skipGroup_of_ungrouped {number : Nat} {fields stop : Bytes} (plain : Ungrouped fields)
    (ends : Key.Spells stop number .endGroup) (rest : Bytes) {fuel : Nat}
    (enough : (fields ++ stop).length ≤ fuel) :
    scope.skipGroup fuel (fields ++ stop ++ rest) = .ok rest := by
  induction plain generalizing fuel with
  | nil =>
    have pos := ends.spelled.length_pos
    obtain ⟨fuel, rfl⟩ : ∃ k, fuel = k + 1 := ⟨fuel - 1, by simp at enough; omega⟩
    rw [List.nil_append, skipGroup, Key.decode_of_spells ends]
  | @cons _ w key value others named holds _ ih =>
    have pos := named.spelled.length_pos
    simp only [List.length_append] at enough ih
    obtain ⟨fuel, rfl⟩ : ∃ k, fuel = k + 1 := ⟨fuel - 1, by omega⟩
    have next := scope.skipPlain_of_holds holds (others ++ stop ++ rest)
    simp only [List.append_assoc] at next ih ⊢
    rw [skipGroup, Key.decode_of_spells named]
    cases w with
    | endGroup => cases holds
    | varint | fixed64 | delimited | startGroup | fixed32 =>
      simp only [next]
      exact ih (by omega)

/-- A value that nobody asked for is passed over by just its length. -/
theorem skip_of_completes {bs : Bytes} (complete : w.Completes bs) (rest : Bytes) :
    scope.skip w (bs ++ rest) = .ok rest := by
  cases complete with
  | plain holds =>
    have skipped := scope.skipPlain_of_holds holds rest
    cases w with
    | startGroup => cases holds
    | varint | fixed64 | delimited | endGroup | fixed32 => exact skipped
  | group plain ends =>
    refine skipGroup_of_ungrouped plain ends rest ?_
    simp only [List.length_append]
    omega

end Scope

/-! ## Values that were written -/

/-- Some bytes were written as a value: a number, or something that its length precedes. -/
inductive WireType.Written : WireType → Bytes → Prop
  | varint {n : Nat} (small : n < 0x10000000000000000) : Written .varint (Varint.encode n)
  | delimited (body : Bytes) : Written .delimited (Shape.delimit body)

namespace WireType

variable {w : WireType} {bs : Bytes}

/-- A value that was written is a whole one, if it is short enough. -/
theorem Written.holds (written : Written w bs) (short : bs.length < wireLimit) : w.Holds bs := by
  cases written with
  | varint small => exact .varint (Varint.spells_encode small)
  | delimited body =>
    have small : body.length < wireLimit := by
      simp only [Shape.delimit, List.length_append] at short
      omega
    exact .delimited (Varint.spells_encode (Nat.lt_trans small (by decide))) small

/-- What is whole where a value was written is no group. -/
theorem Written.holds_of_completes (written : Written w bs) {value : Bytes}
    (complete : w.Completes value) : w.Holds value := by
  cases complete with
  | plain holds => exact holds
  | group => cases written

/-- A value that was written is found again at the start of a whole one: neither goes on where the
other ends. -/
theorem Written.split (written : Written w bs) (short : bs.length < addressLimit)
    {value R rest : Bytes} (complete : w.Completes value) (same : bs ++ R = value ++ rest) :
    bs = value ∧ R = rest := by
  cases written with
  | @varint n small =>
    cases complete with
    | plain holds =>
      cases holds with
      | varint spelled =>
        have read := Varint.decode_of_spells spelled rest
        rw [← same, Varint.decode_encode small] at read
        cases read
        exact ⟨List.append_cancel_right same, rfl⟩
  | delimited body =>
    have small : body.length < 0x10000000000000000 := by
      simp only [Shape.delimit, List.length_append, addressLimit] at short
      omega
    cases complete with
    | plain holds =>
      cases holds with
      | @delimited size body' spelled small' =>
        have bound : body'.length < 0x10000000000000000 := Nat.lt_trans small' (by decide)
        have read := Varint.decode_of_spells spelled (body' ++ rest)
        rw [Nat.mod_eq_of_lt bound, ← List.append_assoc, ← same, Shape.delimit, List.append_assoc,
          Varint.decode_encode small] at read
        obtain ⟨length, tail⟩ := Prod.mk.inj (Except.ok.inj read)
        obtain ⟨rfl, rfl⟩ := List.append_inj tail length
        exact ⟨List.append_cancel_right same, rfl⟩

/-- What its length precedes is no longer than can be said. -/
theorem Holds.body_length_lt {body : Bytes} (holds : Holds .delimited (Shape.delimit body)) :
    body.length < wireLimit := by
  generalize same : Shape.delimit body = bs at holds
  cases holds with
  | @delimited size body' spelled small =>
    -- a length that does not fit at all would need more bytes than there are
    have bound : body.length < 0x10000000000000000 := by
      have length := congrArg List.length same
      have short := spelled.length_le
      simp only [Shape.delimit, List.length_append] at length
      unfold wireLimit at small
      omega
    have read := Varint.decode_of_spells spelled body'
    rw [← same, Shape.delimit, Varint.decode_encode bound] at read
    rw [(Prod.mk.inj (Except.ok.inj read)).2]
    exact small

end WireType

/-! ## Fields -/

/-- A well-formed field. -/
structure Occurrence where
  number : Nat
  wireType : WireType
  key : Bytes
  value : Bytes
  named : Key.Spells key number wireType
  complete : wireType.Completes value
deriving DecidableEq

namespace Occurrence

def keyed (number : Nat) (w : WireType) (value : Bytes) (complete : w.Completes value)
    (positive : number ≠ 0) (small : number < 0x20000000) : Occurrence :=
  ⟨number, w, Key.encode number w, value, Key.spells_encode positive small w, complete⟩

def bytes (o : Occurrence) : Bytes := o.key ++ o.value

def concat (os : List Occurrence) : Bytes := os.flatMap bytes

theorem concat_cons (o : Occurrence) (os : List Occurrence) :
    concat (o :: os) = o.key ++ (o.value ++ concat os) := by
  rw [concat, List.flatMap_cons, bytes, List.append_assoc]
  rfl

theorem concat_append (os os' : List Occurrence) : concat (os ++ os') = concat os ++ concat os' :=
  List.flatMap_append

theorem eq_nil_of_concat {os : List Occurrence} (nothing : concat os = []) : os = [] := by
  cases os with
  | nil => rfl
  | cons o os =>
    have pos := o.named.spelled.length_pos
    rw [concat_cons] at nothing
    rw [(List.append_eq_nil_iff.1 nothing).1] at pos
    cases pos

/-- A field that was written at the start of some fields is the first of them. -/
theorem split {number : Nat} {w : WireType} {bs R : Bytes} {os : List Occurrence}
    (positive : number ≠ 0) (small : number < 0x20000000) (written : w.Written bs)
    (short : bs.length < addressLimit) (same : Key.encode number w ++ bs ++ R = concat os) :
    ∃ o os', os = o :: os' ∧ o.number = number ∧ o.wireType = w ∧ o.value = bs ∧ R = concat os' := by
  have key := Key.decode_of_spells (Key.spells_encode positive small w) (bs ++ R)
  rw [← List.append_assoc, same] at key
  cases os with
  | nil => cases key
  | cons o os =>
    rw [concat_cons, Key.decode_of_spells o.named] at key
    obtain ⟨named, tail⟩ := Prod.mk.inj (Except.ok.inj key)
    obtain ⟨number', w'⟩ := Prod.mk.inj named
    obtain ⟨value, rest⟩ := written.split short (w' ▸ o.complete) tail.symm
    exact ⟨o, os, rfl, number', w', value.symm, rest⟩

end Occurrence

end ContractNode
