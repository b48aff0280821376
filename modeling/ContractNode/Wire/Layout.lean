import ContractNode.Wire.Scope

/-!
# Message layouts

A message is a sequence of fields, each a key followed by a value. Fields may come in any order,
may repeat, and are passed over when nobody declared them.

* `Shape β` : how one value of type `β` is read and written; `Shape.bytes`, `Shape.text`,
  `Shape.bool`, `Shape.int32`, `Shape.int64`, `Shape.choice`;
* `Field α` : one declared field of a record type `α`; `Field.plain` (left out when it holds the
  default), `Field.optional` (left out when unset), `Field.repeated`;
* `Layout α` : the blank record and its fields in ascending order of their numbers, with
  `Layout.read` and `Layout.write`;
* `Shape.message` : a message as the value of a field.
-/

namespace ContractNode

/-! ## Values -/

/-- How one value of type `β` is read and written. Reading gives no value where the bytes are
well formed but stand for none, as an unknown number of an enumeration does. -/
structure Shape (β : Type) where
  wireType : WireType
  read : Scope → Bytes → Except WireError (Option β × Bytes)
  write : β → Bytes

namespace Shape

def delimit (body : Bytes) : Bytes := Varint.encode body.length ++ body

def bytes : Shape Bytes where
  wireType := .delimited
  read scope bs :=
    match scope.delimited bs with
    | .error e => .error e
    | .ok (body, rest) => .ok (some body, rest)
  write := delimit

def text : Shape String where
  wireType := .delimited
  read scope bs :=
    match scope.delimited bs with
    | .error e => .error e
    | .ok (body, rest) =>
      match Text.ofBytes? body with
      | none => .error .badText
      | some s => .ok (some s, rest)
  write s := delimit (Text.bytes s)

/-- A truth value: any number but zero, in its low 32 bits, is true. -/
def bool : Shape Bool where
  wireType := .varint
  read _ bs :=
    match Varint.decode32 bs with
    | .error e => .error e
    | .ok (n, rest) => .ok (some (decide (n ≠ 0)), rest)
  write b := Varint.encode b.toNat

def int64 : Shape Int64 where
  wireType := .varint
  read _ bs :=
    match Varint.decode bs with
    | .error e => .error e
    | .ok (n, rest) => .ok (some (UInt64.ofNat n).toInt64, rest)
  write i := Varint.encode i.toUInt64.toNat

/-- A signed number of 32 bits. A negative one is written with 64. -/
def int32 : Shape Int32 where
  wireType := .varint
  read _ bs :=
    match Varint.decode32 bs with
    | .error e => .error e
    | .ok (n, rest) => .ok (some (UInt32.ofNat n).toInt32, rest)
  write i := Varint.encode i.toInt64.toUInt64.toNat

/-- One of the numbered values of an enumeration; any other number stands for none. -/
def choice {β : Type} (code : β → Nat) (ofCode? : Nat → Option β) : Shape β where
  wireType := .varint
  read _ bs :=
    match Varint.decode32 bs with
    | .error e => .error e
    | .ok (n, rest) => .ok (ofCode? n, rest)
  write v := Varint.encode (code v)

end Shape

/-! ## Fields -/

/-- One declared field of a record type `α`. -/
structure Field (α : Type) where
  number : Nat
  wireType : WireType
  /-- Reads the value into the record, and gives what follows it. -/
  read : Scope → Bytes → α → Except WireError (α × Bytes)
  /-- Writes the field, or nothing where it need not be written. -/
  write : α → Bytes

namespace Field

variable {α β : Type}

def store (shape : Shape β) (set : β → α → α) (scope : Scope) (bs : Bytes) (a : α) :
    Except WireError (α × Bytes) :=
  match shape.read scope bs with
  | .error e => .error e
  | .ok (none, rest) => .ok (a, rest)
  | .ok (some v, rest) => .ok (set v a, rest)

def item (number : Nat) (shape : Shape β) (v : β) : Bytes :=
  Key.encode number shape.wireType ++ shape.write v

/-- A field that holds `default` where it is not written. The last occurrence counts. -/
def plain [DecidableEq β] (number : Nat) (shape : Shape β) (default : β) (get : α → β)
    (set : β → α → α) : Field α where
  number := number
  wireType := shape.wireType
  read := store shape set
  write a := if get a = default then [] else item number shape (get a)

/-- A field that may be unset. The last occurrence counts. -/
def optional (number : Nat) (shape : Shape β) (get : α → Option β) (set : β → α → α) :
    Field α where
  number := number
  wireType := shape.wireType
  read := store shape set
  write a :=
    match get a with
    | none => []
    | some v => item number shape v

/-- A field that holds any number of values, in the order of their occurrences. -/
def repeated (number : Nat) (shape : Shape β) (get : α → List β) (add : β → α → α) :
    Field α where
  number := number
  wireType := shape.wireType
  read := store shape add
  write a := (get a).flatMap (item number shape)

end Field

/-! ## Messages -/

/-- The layout of a record type: what it holds before anything is read, and its fields in
ascending order of their numbers. -/
structure Layout (α : Type) where
  blank : α
  fields : List (Field α)

namespace Layout

variable {α : Type}

def field? (layout : Layout α) (number : Nat) : Option (Field α) :=
  layout.fields.find? fun f => f.number == number

/-- Reads one field, whose key has been read, into a record. -/
def readField (layout : Layout α) (scope : Scope) (number : Nat) (wireType : WireType)
    (bs : Bytes) (a : α) : Except WireError (α × Bytes) :=
  match layout.field? number with
  | none => (scope.skip wireType bs).map fun rest => (a, rest)
  | some f => if wireType = f.wireType then f.read scope bs a else .error .unexpectedWireType

/-- Reads fields into a record until the data end. Every field takes at least one byte, so `fuel`
need not be more than the number of bytes. -/
def readFields (layout : Layout α) (scope : Scope) : Nat → Bytes → α → Except WireError α
  | _, [], a => .ok a
  | 0, _ :: _, _ => .error .endOfData
  | fuel + 1, bs, a =>
    match Key.decode bs with
    | .error e => .error e
    | .ok ((number, wireType), rest) =>
      match layout.readField scope number wireType rest a with
      | .error e => .error e
      | .ok (a', rest') => layout.readFields scope fuel rest' a'

def read (layout : Layout α) (scope : Scope) (bs : Bytes) : Except WireError α :=
  layout.readFields scope bs.length bs layout.blank

/-- Writes a record, its fields in the order of their numbers. -/
def write (layout : Layout α) (a : α) : Bytes := layout.fields.flatMap fun f => f.write a

end Layout

/-- A message as the value of a field. -/
def Shape.message {β : Type} (layout : Layout β) : Shape β where
  wireType := .delimited
  read scope bs :=
    match scope.nested bs with
    | .error e => .error e
    | .ok (inner, body, rest) =>
      match layout.read inner body with
      | .error e => .error e
      | .ok v => .ok (some v, rest)
  write v := Shape.delimit (layout.write v)

end ContractNode
