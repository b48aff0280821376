import ContractNode.Contract.Identity
import ContractNode.Proofs.Selecting
import Mathlib.Data.List.TakeWhile

/-!
# Composite names

The first slash of a composite name ends what a contract goes by, and the first colon of that ends
its name. Later separators belong to the part that they stand in: a version may have colons, and a
channel may have both. So neither a name nor a version can be mistaken for anything else once they
are put together again.

* `ContractInstance.compose` : a text that some parts make;
* `ContractInstance.ofName_compose`, `compose_ofName` : taking apart undoes putting together, and
  the other way round;
* `ContractInstance.key_eq_iff`, `startsWith_key_iff` : what keys tell about names and versions;
* `cutAt`, `Text.cutAt_bytes`, `bytes_ofName` : the search for separators, byte by byte;
* `names_decompose` : taking composite names apart, for all texts.
-/

namespace ContractNode

/-! ## Cutting -/

section Cutting

variable {α : Type} [DecidableEq α] {c : α} {s : List α}

/-- What precedes the first `c` in a list, and what follows it. -/
def cutAt (c : α) (s : List α) : List α × List α :=
  (s.takeWhile (· ≠ c), (s.dropWhile (· ≠ c)).drop 1)

theorem cutAt_of_not_mem (absent : c ∉ s) : cutAt c s = (s, []) := by
  have all : ∀ d ∈ s, decide (d ≠ c) = true :=
    fun d mem => decide_eq_true fun same => absent (same ▸ mem)
  rw [cutAt, List.takeWhile_eq_self_iff.2 all, List.dropWhile_eq_nil_iff.2 all, List.drop_nil]

theorem cutAt_append_cons (absent : c ∉ s) (rest : List α) : cutAt c (s ++ c :: rest) = (s, rest) := by
  have all : ∀ d ∈ s, decide (d ≠ c) = true :=
    fun d mem => decide_eq_true fun same => absent (same ▸ mem)
  rw [cutAt, List.takeWhile_append_of_pos all, List.dropWhile_append_of_pos all]
  simp

end Cutting

namespace ContractInstance

variable {c : Char} {i j : ContractInstance}

theorem cut_of_not_mem {s : List Char} (absent : c ∉ s) : cut c s = (s, []) :=
  cutAt_of_not_mem absent

theorem cut_append_cons {s : List Char} (absent : c ∉ s) (rest : List Char) :
    cut c (s ++ c :: rest) = (s, rest) :=
  cutAt_append_cons absent rest

/-- What is put after a part, with its separator or not at all, is cut off again. -/
theorem cut_append_ite {s : List Char} (absent : c ∉ s) (there : Bool) (rest : List Char) :
    cut c (s ++ if there then c :: rest else []) = (s, if there then rest else []) := by
  cases there with
  | true => exact cut_append_cons absent rest
  | false => simpa using cut_of_not_mem absent

theorem cut_subset (c : Char) (s : List Char) : (cut c s).1 ⊆ s ∧ (cut c s).2 ⊆ s :=
  ⟨(List.takeWhile_sublist _).subset, fun _ mem =>
    (List.dropWhile_sublist _).subset (List.mem_of_mem_drop mem)⟩

/-- No name that was taken out of a composite name has a colon. -/
theorem not_mem_name_ofName (composite : String) : ':' ∉ (ofName composite).name.toList := by
  simp only [ofName, String.toList_ofList]
  exact not_mem_cut ':' _

/-! ## Putting parts together -/

/-- A colon stands before the first slash of a text, or anywhere if it has no slash. -/
def isVersioned (s : String) : Bool := decide (':' ∈ s.toList.takeWhile (· ≠ '/'))

/-- A text has a slash. -/
def isPlaced (s : String) : Bool := decide ('/' ∈ s.toList)

/-- The text that some parts make: the name, with the version after a colon and the channel after a
slash, where they are asked for. -/
def compose (i : ContractInstance) (versioned placed : Bool) : String :=
  i.name ++ (if versioned then ":" ++ i.version else "") ++ if placed then "/" ++ i.channel else ""

/-- No separator stands in a part that it would end. -/
structure Parted (i : ContractInstance) : Prop where
  colon : ':' ∉ i.name.toList
  slash : '/' ∉ i.name.toList
  version : '/' ∉ i.version.toList

theorem toList_compose (i : ContractInstance) (versioned placed : Bool) :
    (i.compose versioned placed).toList =
      (i.name.toList ++ if versioned then ':' :: i.version.toList else []) ++
        if placed then '/' :: i.channel.toList else [] := by
  cases versioned <;> cases placed <;> simp [compose]

/-- What was put together is taken apart into the same parts. -/
theorem ofName_compose (parted : i.Parted) (versioned placed : Bool) :
    ofName (i.compose versioned placed) =
      ⟨i.name, if versioned then i.version else "", if placed then i.channel else ""⟩ := by
  have slash : '/' ∉ i.name.toList ++ if versioned then ':' :: i.version.toList else [] := by
    cases versioned <;> simp [parted.slash, parted.version]
  have contract := cut_append_ite slash placed i.channel.toList
  have name := cut_append_ite parted.colon versioned i.version.toList
  rw [ofName, toList_compose]
  simp only [contract, name]
  cases versioned <;> cases placed <;> simp

theorem parted_ofName (s : String) : (ofName s).Parted := by
  have slash : '/' ∉ (cut '/' s.toList).1 := not_mem_cut '/' _
  refine ⟨not_mem_name_ofName s, fun mem => slash ?_, fun mem => slash ?_⟩
  · exact (cut_subset ':' _).1 (by simpa [ofName] using mem)
  · exact (cut_subset ':' _).2 (by simpa [ofName] using mem)

/-- What was taken apart is put together into the same text. -/
theorem compose_ofName (s : String) : (ofName s).compose (isVersioned s) (isPlaced s) = s := by
  apply String.toList_injective
  have contract := cut_append ':' (cut '/' s.toList).1
  have whole := cut_append '/' s.toList
  rw [toList_compose]
  simp only [ofName, String.toList_ofList, isVersioned, isPlaced, decide_eq_true_eq]
  exact (congrArg (· ++ _) contract).trans whole

/-- Without a colon before its first slash a text has no version, and without a slash it has no
channel. -/
theorem missing_ofName (s : String) :
    (isVersioned s = false → (ofName s).version = "") ∧
      (isPlaced s = false → (ofName s).channel = "") := by
  constructor
  · intro plain
    have absent : ':' ∉ (cut '/' s.toList).1 := of_decide_eq_false plain
    simp [ofName, cut_of_not_mem absent]
  · intro bare
    have absent : '/' ∉ s.toList := of_decide_eq_false bare
    simp [ofName, cut_of_not_mem absent]

/-! ## Keys -/

/-- A key is a composite name of its own. -/
theorem key_eq_compose (i : ContractInstance) : i.key = i.compose (i.version != "") false := by
  unfold key compose
  split <;> simp_all [String.append_assoc]

/-- A key is taken apart into the name and the version that it is the key of. -/
theorem ofName_key (parted : i.Parted) : ofName i.key = ⟨i.name, i.version, ""⟩ := by
  rw [key_eq_compose, ofName_compose parted]
  by_cases unversioned : i.version = "" <;> simp [unversioned]

/-- The first colon of a key ends the name. -/
theorem cut_key (plain : ':' ∉ i.name.toList) :
    cut ':' i.key.toList = (i.name.toList, i.version.toList) := by
  unfold key
  split
  · rename_i unversioned
    rw [cut_of_not_mem plain, unversioned]
    rfl
  · rw [String.append_assoc, String.toList_append, String.toList_append]
    exact cut_append_cons plain _

theorem key_eq_iff (plain : ':' ∉ i.name.toList) (plain' : ':' ∉ j.name.toList) :
    i.key = j.key ↔ i.name = j.name ∧ i.version = j.version := by
  constructor
  · intro same
    have parts :=
      (cut_key plain).symm.trans ((congrArg (cut ':' ·.toList) same).trans (cut_key plain'))
    obtain ⟨name, version⟩ := Prod.mk.inj parts
    exact ⟨String.toList_injective name, String.toList_injective version⟩
  · rintro ⟨name, version⟩
    rw [key, key, name, version]

/-- A key begins with a name and a colon if and only if it is that of a version of this name. A name
that goes on differs from it at the colon. -/
theorem startsWith_key_iff {name : String} (plain : ':' ∉ i.name.toList)
    (plain' : ':' ∉ name.toList) :
    Text.startsWith i.key (name ++ ":") = true ↔ i.name = name ∧ i.version ≠ "" := by
  rw [Text.startsWith_iff]
  constructor
  · rintro ⟨rest, joined⟩
    rw [String.toList_append, List.append_assoc] at joined
    have parts := cut_key plain
    rw [← joined] at parts
    obtain ⟨same, _⟩ := Prod.mk.inj ((cut_append_cons plain' rest).symm.trans parts)
    refine ⟨(String.toList_injective same).symm, fun unversioned => plain ?_⟩
    have bare : i.key = i.name := if_pos unversioned
    rw [← bare, ← joined]
    simp
  · rintro ⟨rfl, version⟩
    rw [key, if_neg version]
    exact ⟨i.version.toList, (String.toList_append ..).symm⟩

end ContractInstance

/-! ## Bytes -/

namespace Text

theorem bytes_ofList_append (l l' : List Char) :
    bytes (String.ofList (l ++ l')) = bytes (String.ofList l) ++ bytes (String.ofList l') := by
  rw [bytes_ofList, bytes_ofList, bytes_ofList]
  simp

theorem bytes_ofList_cons (d : Char) (l : List Char) :
    bytes (String.ofList (d :: l)) = String.utf8EncodeChar d ++ bytes (String.ofList l) := by
  rw [bytes_ofList, bytes_ofList]
  simp [List.utf8Encode]

theorem utf8EncodeChar_of_le {d : Char} (single : d.toNat ≤ 127) :
    String.utf8EncodeChar d = [UInt8.ofNat d.toNat] := by
  simp only [String.utf8EncodeChar, Char.toNat_val, if_pos single]

/-- Among the bytes of a character that has several, none stands for a character by itself. -/
theorem high_of_mem_utf8EncodeChar {d : Char} {b : UInt8} (several : 127 < d.toNat)
    (mem : b ∈ String.utf8EncodeChar d) : 127 < b.toNat := by
  simp only [String.utf8EncodeChar, Char.toNat_val, if_neg (Nat.not_le.2 several)] at mem
  split at mem
  · simp only [List.mem_cons, List.not_mem_nil, or_false] at mem
    rcases mem with rfl | rfl <;> rw [UInt8.toNat_ofNat'] <;> omega
  · split at mem
    · simp only [List.mem_cons, List.not_mem_nil, or_false] at mem
      rcases mem with rfl | rfl | rfl <;> rw [UInt8.toNat_ofNat'] <;> omega
    · simp only [List.mem_cons, List.not_mem_nil, or_false] at mem
      rcases mem with rfl | rfl | rfl | rfl <;> rw [UInt8.toNat_ofNat'] <;> omega

/-- The byte of a character that has only one is among those of no other character. -/
theorem mem_utf8EncodeChar_iff {c d : Char} (single : c.toNat ≤ 127) :
    UInt8.ofNat c.toNat ∈ String.utf8EncodeChar d ↔ c = d := by
  have byte : (UInt8.ofNat c.toNat).toNat = c.toNat := by
    rw [UInt8.toNat_ofNat']
    omega
  rcases Nat.lt_or_ge 127 d.toNat with several | one
  · refine ⟨fun mem => ?_, ?_⟩
    · have := high_of_mem_utf8EncodeChar several mem
      omega
    · rintro rfl
      omega
  · rw [utf8EncodeChar_of_le one, List.mem_singleton]
    refine ⟨fun same => ?_, congrArg fun c : Char => UInt8.ofNat c.toNat⟩
    have nat := congrArg UInt8.toNat same
    rw [byte, UInt8.toNat_ofNat', Nat.mod_eq_of_lt (by omega)] at nat
    exact Char.toNat_inj.1 nat

theorem mem_bytes_iff {c : Char} (single : c.toNat ≤ 127) (l : List Char) :
    UInt8.ofNat c.toNat ∈ bytes (String.ofList l) ↔ c ∈ l := by
  induction l with
  | nil => exact iff_of_false List.not_mem_nil List.not_mem_nil
  | cons d l ih =>
    rw [bytes_ofList_cons, List.mem_append, mem_utf8EncodeChar_iff single, ih, List.mem_cons]

/-- A text is cut at the same place when its bytes are. -/
theorem cutAt_bytes {c : Char} (single : c.toNat ≤ 127) (l : List Char) :
    cutAt (UInt8.ofNat c.toNat) (bytes (String.ofList l)) =
      (bytes (String.ofList (ContractInstance.cut c l).1),
        bytes (String.ofList (ContractInstance.cut c l).2)) := by
  have first := mt (mem_bytes_iff single _).1 (ContractInstance.not_mem_cut c l)
  by_cases there : c ∈ l
  · have whole := ContractInstance.cut_append c l
    rw [if_pos there] at whole
    rw [← cutAt_append_cons first, ← List.singleton_append, ← utf8EncodeChar_of_le single,
      ← bytes_ofList_cons, ← bytes_ofList_append, whole]
  · rw [ContractInstance.cut_of_not_mem there]
    exact cutAt_of_not_mem (mt (mem_bytes_iff single l).1 there)

end Text

namespace ContractInstance

/-- The search for separators among the bytes of a text, where 0x2F is a slash and 0x3A a colon, finds
the same parts. -/
theorem bytes_ofName (s : String) :
    (cutAt 0x2F (Text.bytes s)).2 = Text.bytes (ofName s).channel ∧
    cutAt 0x3A (cutAt 0x2F (Text.bytes s)).1 =
      (Text.bytes (ofName s).name, Text.bytes (ofName s).version) := by
  have slash := Text.cutAt_bytes (c := '/') (by decide) s.toList
  rw [String.ofList_toList] at slash
  have colon := Text.cutAt_bytes (c := ':') (by decide) (cut '/' s.toList).1
  exact ⟨congrArg Prod.snd slash, (congrArg (fun p => cutAt 0x3A p.1) slash).trans colon⟩

/-! ## All texts -/

/-- Whatever a text is, it is taken apart at its first slash and at the first colon before that,
which its bytes show as well as its characters do: no separator is left in a part that it would
have ended, and the text is made of the parts, with the separators that it has and what is missing
left empty. Every name, version and channel that a text can be taken apart into are found again in
the text that they make. Two keys are the same exactly if the names and the versions are, and a key
is taken apart into the name and the version that it is the key of. -/
theorem names_decompose :
    (∀ s, (ofName s).Parted ∧ (ofName s).compose (isVersioned s) (isPlaced s) = s ∧
      (isVersioned s = false → (ofName s).version = "") ∧
      (isPlaced s = false → (ofName s).channel = "") ∧
      (cutAt 0x2F (Text.bytes s)).2 = Text.bytes (ofName s).channel ∧
      cutAt 0x3A (cutAt 0x2F (Text.bytes s)).1 =
        (Text.bytes (ofName s).name, Text.bytes (ofName s).version)) ∧
    (∀ name version channel : String,
      ':' ∉ name.toList → '/' ∉ name.toList → '/' ∉ version.toList →
      ofName (name ++ ":" ++ version ++ "/" ++ channel) = ⟨name, version, channel⟩) ∧
    (∀ s t, (ofName s).key = (ofName t).key ↔
      (ofName s).name = (ofName t).name ∧ (ofName s).version = (ofName t).version) ∧
    ∀ s, ofName (ofName s).key = ⟨(ofName s).name, (ofName s).version, ""⟩ := by
  refine ⟨fun s => ?_, fun name version channel colon slash plain => ?_, fun s t => ?_, fun s => ?_⟩
  · obtain ⟨unversioned, unplaced⟩ := missing_ofName s
    exact ⟨parted_ofName s, compose_ofName s, unversioned, unplaced, bytes_ofName s⟩
  · have taken := ofName_compose (i := ⟨name, version, channel⟩) ⟨colon, slash, plain⟩ true true
    simpa [compose, String.append_assoc] using taken
  · exact key_eq_iff (not_mem_name_ofName s) (not_mem_name_ofName t)
  · exact ofName_key (parted_ofName s)

/-- A version with a colon, a channel with both separators, and letters of several bytes; and names
that have one of the separators only. -/
theorem names_decompose_accents :
    (':' ∉ "café".toList ∧ '/' ∉ "café".toList ∧ '/' ∉ "1:é".toList ∧
      ofName "café:1:é/ch:a/é" = ⟨"café", "1:é", "ch:a/é"⟩) ∧
    (isVersioned "café/a:é" = false ∧ (ofName "café/a:é").version = "") ∧
    (isPlaced "café:é" = false ∧ (ofName "café:é").channel = "") := by
  have colon : ':' ∉ "café".toList := by decide
  have slash : '/' ∉ "café".toList := by decide
  have plain : '/' ∉ "1:é".toList := by decide
  have unversioned : isVersioned "café/a:é" = false := by decide
  have unplaced : isPlaced "café:é" = false := by decide
  obtain ⟨taken, composed, _⟩ := names_decompose
  exact ⟨⟨colon, slash, plain, composed "café" "1:é" "ch:a/é" colon slash plain⟩,
    ⟨unversioned, (taken "café/a:é").2.2.1 unversioned⟩,
    unplaced, (taken "café:é").2.2.2.1 unplaced⟩

end ContractInstance

end ContractNode
