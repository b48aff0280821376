import ContractNode.Wire.Varint

/-!
# Reading inside a message

* `WireType` : how the value of a field is laid out;
* `Key.decode`, `Key.encode` : a field's number together with its wire type, and `Key.Spells` : the
  bytes that stand for them;
* `Scope` : the message being read, which says where its data stop and how much further its
  declared length reaches;
* `Scope.take`, `Scope.delimited` : reading a given number of bytes, and a value that tells its
  own length;
* `Scope.skip` : passing over a field nobody declared.
-/

namespace ContractNode

/-- How the value of a field is laid out. -/
inductive WireType
  | varint
  | fixed64
  | delimited
  | startGroup
  | endGroup
  | fixed32
deriving DecidableEq, Repr

namespace WireType

def code : WireType → Nat
  | .varint => 0
  | .fixed64 => 1
  | .delimited => 2
  | .startGroup => 3
  | .endGroup => 4
  | .fixed32 => 5

def ofCode? : Nat → Option WireType
  | 0 => some .varint
  | 1 => some .fixed64
  | 2 => some .delimited
  | 3 => some .startGroup
  | 4 => some .endGroup
  | 5 => some .fixed32
  | _ => none

@[simp] theorem ofCode?_code (w : WireType) : ofCode? w.code = some w := by cases w <;> rfl

theorem code_lt (w : WireType) : w.code < 8 := by cases w <;> decide

end WireType

namespace Key

def encode (number : Nat) (wireType : WireType) : Bytes :=
  Varint.encode (8 * number + wireType.code)

/-- Reads a field's number and wire type, and what follows them. -/
def decode (bs : Bytes) : Except WireError ((Nat × WireType) × Bytes) :=
  match Varint.decode32 bs with
  | .error e => .error e
  | .ok (n, rest) =>
    match WireType.ofCode? (n % 8) with
    | none => .error .badKey
    | some w => if n / 8 = 0 then .error .badKey else .ok ((n / 8, w), rest)

/-- Some bytes spell the key of a field. -/
structure Spells (bs : Bytes) (number : Nat) (w : WireType) : Prop where
  spelled : Varint.Spells 10 bs (8 * number + w.code)
  positive : number ≠ 0
  small : number < 0x20000000

theorem decode_of_spells {bs : Bytes} {number : Nat} {w : WireType} (spells : Spells bs number w)
    (rest : Bytes) : decode (bs ++ rest) = .ok ((number, w), rest) := by
  have low := w.code_lt
  have small := spells.small
  have bound : 8 * number + w.code < 0x100000000 := by omega
  have number' : (8 * number + w.code) / 8 = number := by omega
  have code' : (8 * number + w.code) % 8 = w.code := by omega
  rw [decode, Varint.decode32_of_spells spells.spelled bound]
  simp only [number', code', WireType.ofCode?_code, if_neg spells.positive]

theorem spells_encode {number : Nat} (positive : number ≠ 0) (h : number < 0x20000000)
    (w : WireType) : Spells (encode number w) number w := by
  have low := w.code_lt
  exact ⟨Varint.spells_encode (by omega), positive, h⟩

end Key

structure Scope where
  /-- The position, counted from the start of all data, at which its data stop. -/
  stop : Nat
  /-- How far its declared length reaches past its data; the outermost message declares none. -/
  excess : Option Nat
deriving DecidableEq, Repr

namespace Scope

/-- The scope of an outermost message. -/
def whole (bs : Bytes) : Scope := ⟨bs.length, none⟩

/-- Whether `n` more bytes reach past the declared length, given what is left of the data. -/
def exceeds (scope : Scope) (n : Nat) (bs : Bytes) : Bool :=
  match scope.excess with
  | none => false
  | some excess => decide (bs.length + excess < n)

/-- The longest item that is asked for without a look at the data first. -/
def patience : Nat := 10000000

def take (scope : Scope) (n : Nat) (bs : Bytes) : Except WireError (Bytes × Bytes) :=
  if n ≤ bs.length then .ok (bs.take n, bs.drop n)
  else if scope.exceeds n bs then .error .truncated
  else if n < patience then .error .endOfData
  else .error .truncated

/-- Takes a value that is preceded by its length, and what follows it. -/
def delimited (scope : Scope) (bs : Bytes) : Except WireError (Bytes × Bytes) :=
  match Varint.decode32 bs with
  | .error e => .error e
  | .ok (n, rest) => scope.take n rest

/-- Takes the body of a message inside this one: its scope, its data, and what follows it. A body
whose length reaches past the data stops where they stop. -/
def nested (scope : Scope) (bs : Bytes) : Except WireError (Scope × Bytes × Bytes) :=
  match Varint.decode bs with
  | .error e => .error e
  | .ok (n, rest) =>
    let position := scope.stop - rest.length
    if 0x10000000000000000 ≤ position + n then .error .overflow
    else if scope.exceeds n rest then .error .truncated
    else
      let body := rest.take n
      .ok (⟨position + body.length, some (n - body.length)⟩, body, rest.drop n)

def dropFixed (n : Nat) (bs : Bytes) : Except WireError Bytes :=
  if n ≤ bs.length then .ok (bs.drop n) else .error .endOfData

/-- Passes over the value of a field that is no group. -/
def skipPlain (scope : Scope) (wireType : WireType) (bs : Bytes) : Except WireError Bytes :=
  match wireType with
  | .varint => (Varint.decode bs).map Prod.snd
  | .fixed64 => dropFixed 8 bs
  | .delimited => (scope.delimited bs).map Prod.snd
  | .fixed32 => dropFixed 4 bs
  | .startGroup | .endGroup => .error .unexpectedWireType

/-- Passes over the fields of a group up to the end of it, which may carry any number. Every
field takes at least one byte, so `fuel` need not be more than the number of bytes. -/
def skipGroup (scope : Scope) : Nat → Bytes → Except WireError Bytes
  | 0, _ => .error .endOfData
  | fuel + 1, bs =>
    match Key.decode bs with
    | .error e => .error e
    | .ok ((_, .endGroup), rest) => .ok rest
    | .ok ((_, wireType), rest) =>
      match scope.skipPlain wireType rest with
      | .error e => .error e
      | .ok rest' => scope.skipGroup fuel rest'

/-- Passes over the value of a field nobody declared. A group may hold anything but a group. -/
def skip (scope : Scope) (wireType : WireType) (bs : Bytes) : Except WireError Bytes :=
  match wireType with
  | .startGroup => scope.skipGroup (bs.length + 1) bs
  | _ => scope.skipPlain wireType bs

end Scope

end ContractNode
