import ContractNode.Wire.Layout

/-!
# Codecs

* `CodecError` : why bytes do not stand for a value, and its wording;
* `Codec δ α` : a named message format for `α`, read by way of a draft `δ` in which required
  members may still be missing;
* `Codec.encode`, `Codec.decode`.
-/

namespace ContractNode

/-- Why bytes do not stand for a value, or a value for bytes. -/
inductive CodecError
  /-- The bytes are not well formed. -/
  | serialization (detail : String)
  /-- The bytes are well formed but a required member is missing. -/
  | invalidType (detail : String)
deriving DecidableEq, Repr

namespace CodecError

def message : CodecError → String
  | .serialization detail => "SerializationError: " ++ detail
  | .invalidType detail => "InvalidTypeError: " ++ detail

/-- A message of the named format is not well formed. -/
def unreadable (name : String) (e : WireError) : CodecError :=
  .serialization ("Unable to get " ++ name ++ " from bytes: " ++ e.message)

end CodecError

/-- A message format for values of type `α`. Fields are read into a draft, which is completed once
all of them are there. -/
structure Codec (δ α : Type) where
  /-- What failures call the format. -/
  name : String
  layout : Layout δ
  /-- The draft that is written for a value. -/
  draft : α → δ
  /-- The value of a draft that has been read. -/
  complete : δ → Except CodecError α

namespace Codec

variable {δ α : Type}

/-- The format of a record without required members. -/
def plain (name : String) (layout : Layout α) : Codec α α := ⟨name, layout, id, .ok⟩

def encode (codec : Codec δ α) (a : α) : Bytes := codec.layout.write (codec.draft a)

def decode (codec : Codec δ α) (bs : Bytes) : Except CodecError α :=
  match codec.layout.read (Scope.whole bs) bs with
  | .error e => .error (.unreadable codec.name e)
  | .ok d => codec.complete d

end Codec

end ContractNode
