/-!
# Text as bytes

* `Bytes` : the byte strings that travel between node and contract;
* `Text.bytes`, `Text.ofBytes?` : a text and its UTF-8 form, read back by `ofBytes?_bytes`;
* `Text.repair` : bytes with a mark in place of each piece that is not UTF-8;
* `Text.Before` : the order of texts by their bytes, which orders the keys of a ledger;
* `Text.startsWith` : whether a text begins with another one;
* `Text.short` : the first eight characters of a transaction id.
-/

namespace ContractNode

abbrev Bytes := List UInt8

namespace Text

def bytes (s : String) : Bytes := s.toUTF8.data.toList

/-- The text with the given UTF-8 bytes, if they are valid UTF-8. -/
def ofBytes? (b : Bytes) : Option String := String.fromUTF8? ⟨b.toArray⟩

@[simp] theorem ofBytes?_bytes (s : String) : ofBytes? (bytes s) = some s := by
  have h : (⟨s.toUTF8.data.toList.toArray⟩ : ByteArray) = s.toByteArray := by
    cases h : s.toByteArray; simp [String.toUTF8, h]
  simp only [ofBytes?, bytes, h, String.fromUTF8?]
  rw [dif_pos s.isValidUTF8]
  simp [String.fromUTF8]

theorem bytes_injective {s t : String} (h : bytes s = bytes t) : s = t := by
  have := congrArg ofBytes? h
  simpa using this

/-! ## Bytes that are not UTF-8 -/

/-- The ranges of the bytes that complete a character which begins with the given one, if any
does. -/
def completion? (lead : UInt8) : Option (List (UInt8 × UInt8)) :=
  let any := (0x80, 0xBF)
  if lead < 0x80 then some []
  else if lead < 0xC2 then none
  else if lead < 0xE0 then some [any]
  else if lead = 0xE0 then some [(0xA0, 0xBF), any]
  else if lead = 0xED then some [(0x80, 0x9F), any]
  else if lead < 0xF0 then some [any, any]
  else if lead = 0xF0 then some [(0x90, 0xBF), any, any]
  else if lead < 0xF4 then some [any, any, any]
  else if lead = 0xF4 then some [(0x80, 0x8F), any, any]
  else none

/-- How many bytes lie in the ranges that they should lie in, before the first that does not. -/
def fitting : List (UInt8 × UInt8) → Bytes → Nat
  | (first, last) :: ranges, b :: rest =>
    if first ≤ b ∧ b ≤ last then fitting ranges rest + 1 else 0
  | _, _ => 0

/-- What stands in the place of bytes that are not UTF-8: the bytes of U+FFFD. -/
def replacement : Bytes := [0xEF, 0xBF, 0xBD]

/-- The characters among some bytes. Where none begins, or one breaks off, a replacement stands in
the place of what was read of it. -/
def repair : Bytes → Bytes
  | [] => []
  | lead :: rest =>
    match completion? lead with
    | none => replacement ++ repair rest
    | some ranges =>
      let k := fitting ranges rest
      (if k = ranges.length then lead :: rest.take k else replacement) ++ repair (rest.drop k)
termination_by b => b.length
decreasing_by all_goals simp only [List.length_cons, List.length_drop]; omega

/-! ## Order -/

/-- Texts are ordered by their bytes, the shorter one first where one begins the other. -/
def Before (s t : String) : Prop := bytes s < bytes t

instance (s t : String) : Decidable (Before s t) := inferInstanceAs (Decidable (bytes s < bytes t))

def startsWith (s q : String) : Bool := (bytes q).isPrefixOf (bytes s)

/-- The first eight characters of a transaction id, enough to tell transactions apart by eye. -/
def short (tx : String) : String := String.ofList (tx.toList.take 8)

/-! ## The byte order is a strict total order -/

theorem Before.irrefl (s : String) : ¬ Before s s := List.lt_irrefl _

theorem Before.trans {s t u : String} (h : Before s t) (h' : Before t u) : Before s u :=
  List.lt_trans h h'

theorem Before.asymm {s t : String} (h : Before s t) : ¬ Before t s := List.lt_asymm h

theorem eq_of_not_before {s t : String} (h : ¬ Before s t) (h' : ¬ Before t s) : s = t :=
  bytes_injective (List.le_antisymm (List.not_lt.1 h') (List.not_lt.1 h))

end Text

end ContractNode
