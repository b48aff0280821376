import ContractNode.Text

/-!
# Variable-length integers

A number is written in groups of seven bits, the lowest first; every byte but the last has its
top bit set.

* `WireError` : why bytes are not a well-formed message, and its wording;
* `Varint.encode` : the bytes of a number below `2 ^ 64`;
* `Varint.decode` : reads at most ten bytes and keeps the low 64 bits; it gives back what was
  written (`decode_encode`);
* `Varint.Spells` : the bytes that stand for a number, whether it was written so or not.
-/

namespace ContractNode

/-- Why bytes are not a well-formed message. -/
inductive WireError
  /-- A key names field 0 or an unknown wire type. -/
  | badKey
  /-- A number is still not complete after ten bytes. -/
  | badVarint
  /-- The data stop inside an item. -/
  | endOfData
  /-- A field has another wire type than its declaration says. -/
  | unexpectedWireType
  /-- An item reaches past the end of what encloses it. -/
  | truncated
  /-- A text is not valid UTF-8. -/
  | badText
  /-- A length reaches past the largest position. -/
  | overflow
deriving DecidableEq, Repr

def WireError.message : WireError → String
  | .badKey => "incorrect tag"
  | .badVarint => "incorrect varint"
  | .endOfData => "unexpected EOF"
  | .unexpectedWireType => "unexpected wire type"
  | .truncated => "truncated message"
  | .badText => "invalid UTF-8 sequence"
  | .overflow => "other error"

namespace Varint

/-- Writes a number in at most `more + 1` groups of seven bits. -/
def encodeWithin : Nat → Nat → Bytes
  | 0, n => [n.toUInt8]
  | more + 1, n =>
    if n < 128 then [n.toUInt8] else (n % 128 + 128).toUInt8 :: encodeWithin more (n / 128)

/-- The bytes of a number below `2 ^ 64`. -/
def encode (n : Nat) : Bytes := encodeWithin 9 n

/-- Reads a number of at most `groups` bytes, and what follows it. -/
def decodeWithin : Nat → Bytes → Except WireError (Nat × Bytes)
  | 0, _ => .error .badVarint
  | _ + 1, [] => .error .endOfData
  | groups + 1, b :: rest =>
    if b < 128 then .ok (b.toNat, rest)
    else match decodeWithin groups rest with
      | .error e => .error e
      | .ok (n, rest') => .ok (b.toNat - 128 + 128 * n, rest')

/-- Reads a number, of which the low 64 bits count, and what follows it. -/
def decode (bs : Bytes) : Except WireError (Nat × Bytes) :=
  match decodeWithin 10 bs with
  | .error e => .error e
  | .ok (n, rest) => .ok (n % 0x10000000000000000, rest)

/-- Reads a number, of which the low 32 bits count, and what follows it. -/
def decode32 (bs : Bytes) : Except WireError (Nat × Bytes) :=
  match decode bs with
  | .error e => .error e
  | .ok (n, rest) => .ok (n % 0x100000000, rest)

/-! ## Reading what was written -/

/-- Some bytes spell a number in at most `groups` groups of seven bits, of which the last ones may
add nothing. -/
inductive Spells : Nat → Bytes → Nat → Prop
  | last {groups : Nat} {b : UInt8} (low : b < 128) : Spells (groups + 1) [b] b.toNat
  | more {groups n : Nat} {b : UInt8} {bs : Bytes} (high : ¬ b < 128)
      (rest : Spells groups bs n) : Spells (groups + 1) (b :: bs) (b.toNat - 128 + 128 * n)

theorem Spells.length_pos {groups n : Nat} {bs : Bytes} (spells : Spells groups bs n) :
    0 < bs.length := by
  cases spells <;> simp

theorem Spells.length_le {groups n : Nat} {bs : Bytes} (spells : Spells groups bs n) :
    bs.length ≤ groups := by
  induction spells with
  | last => simp
  | more _ _ ih => exact Nat.succ_le_succ ih

theorem decodeWithin_of_spells {groups n : Nat} {bs : Bytes} (spells : Spells groups bs n)
    (rest : Bytes) : decodeWithin groups (bs ++ rest) = .ok (n, rest) := by
  induction spells with
  | last low => simp [decodeWithin, low]
  | more high _ ih => simp [decodeWithin, high, ih]

theorem decode_of_spells {bs : Bytes} {n : Nat} (spells : Spells 10 bs n) (rest : Bytes) :
    decode (bs ++ rest) = .ok (n % 0x10000000000000000, rest) := by
  rw [decode, decodeWithin_of_spells spells]

theorem decode32_of_spells {bs : Bytes} {n : Nat} (spells : Spells 10 bs n) (h : n < 0x100000000)
    (rest : Bytes) : decode32 (bs ++ rest) = .ok (n, rest) := by
  have h' : n < 0x10000000000000000 := Nat.lt_trans h (by decide)
  rw [decode32, decode_of_spells spells]
  simp only [Nat.mod_eq_of_lt h', Nat.mod_eq_of_lt h]

/-- What was written spells the number, as far as the groups reach. -/
theorem spells_encodeWithin (more n : Nat) (h : n < Nat.pow 128 (more + 1)) :
    Spells (more + 1) (encodeWithin more n) n := by
  induction more generalizing n with
  | zero =>
    have small : n < 128 := by simpa using h
    have same : n.toUInt8.toNat = n := by simp; omega
    have below : n.toUInt8 < 128 := by rw [UInt8.lt_iff_toNat_lt, same]; exact small
    have spelled : Spells (0 + 1) _ _ := .last below
    rwa [same] at spelled
  | succ more ih =>
    rw [encodeWithin]
    split
    · rename_i small
      have same : n.toUInt8.toNat = n := by simp; omega
      have below : n.toUInt8 < 128 := by rw [UInt8.lt_iff_toNat_lt, same]; exact small
      have spelled : Spells (more + 1 + 1) _ _ := .last below
      rwa [same] at spelled
    · have same : (n % 128 + 128).toUInt8.toNat = n % 128 + 128 := by simp; omega
      have above : ¬ (n % 128 + 128).toUInt8 < 128 := by
        rw [UInt8.lt_iff_toNat_lt, same]; simp
      have bound : n / 128 < Nat.pow 128 (more + 1) := by
        rw [Nat.div_lt_iff_lt_mul (by decide)]
        exact h
      have whole : n % 128 + 128 - 128 + 128 * (n / 128) = n := by omega
      have spelled := Spells.more above (ih _ bound)
      rwa [same, whole] at spelled

theorem spells_encode {n : Nat} (h : n < 0x10000000000000000) : Spells 10 (encode n) n :=
  spells_encodeWithin 9 n (Nat.lt_of_lt_of_le h (by decide))

theorem decode_encode {n : Nat} (h : n < 0x10000000000000000) (rest : Bytes) :
    decode (encode n ++ rest) = .ok (n, rest) := by
  rw [decode_of_spells (spells_encode h), Nat.mod_eq_of_lt h]

theorem decode32_encode {n : Nat} (h : n < 0x100000000) (rest : Bytes) :
    decode32 (encode n ++ rest) = .ok (n, rest) :=
  decode32_of_spells (spells_encode (Nat.lt_trans h (by decide))) h rest

end Varint

end ContractNode
