import ContractNode.Proofs.Decoding
import ContractNode.Request.Payload

/-!
# Every format reads back what it wrote

* `Format` : the seventeen message formats that node and contract use, each with its codec;
* `Format.canonical` : a value as it is read, which is the value itself unless it names the empty
  collection: on the wire that is none;
* one lemma `restores` a record says what its fields are read back as;
* `decode_encode_eq_canonical` : in every format, a value that fits the wire format is read back.
-/

namespace ContractNode

/-! ## Payloads of requests -/

/-- A collection that is written is read back, but for the empty one. -/
theorem collectionOfText_collectionText (c : Option String) :
    collectionOfText (collectionText c) = c.filter (· ≠ "") := by
  cases c with
  | none => rfl
  | some s => by_cases empty : s = "" <;> simp [collectionOfText, collectionText, Option.filter, empty]

def KeyRef.canonical (r : KeyRef) : KeyRef := { r with collection := r.collection.filter (· ≠ "") }

theorem KeyRef.restores (r : KeyRef) (scope : Scope) :
    Layout.Restores scope r layout.fields {} r.canonical := by
  rw [canonical, ← collectionOfText_collectionText]
  exact .plain (Shape.text_sound _) (fun same => by rw [same]) <|
    .plain (Shape.text_sound _) (fun same => by rw [same]; rfl) .nil

def KeyWrite.canonical (r : KeyWrite) : KeyWrite :=
  { r with collection := r.collection.filter (· ≠ "") }

theorem KeyWrite.restores (r : KeyWrite) (scope : Scope) :
    Layout.Restores scope r layout.fields {} r.canonical := by
  rw [canonical, ← collectionOfText_collectionText]
  exact .plain (Shape.text_sound _) (fun same => by rw [same]) <|
    .plain (Shape.bytes_sound _) (fun same => by rw [same]) <|
    .plain (Shape.text_sound _) (fun same => by rw [same]; rfl) .nil

def KeyRange.canonical (r : KeyRange) : KeyRange :=
  { r with collection := r.collection.filter (· ≠ "") }

theorem KeyRange.restores (r : KeyRange) (scope : Scope) :
    Layout.Restores scope r layout.fields {} r.canonical := by
  rw [canonical, ← collectionOfText_collectionText]
  exact .plain (Shape.text_sound _) (fun same => by rw [same]) <|
    .plain (Shape.text_sound _) (fun same => by rw [same]) <|
    .plain (Shape.text_sound _) (fun same => by rw [same]; rfl) .nil

def KeyQuery.canonical (r : KeyQuery) : KeyQuery :=
  { r with collection := r.collection.filter (· ≠ "") }

theorem KeyQuery.restores (r : KeyQuery) (scope : Scope) :
    Layout.Restores scope r layout.fields {} r.canonical := by
  rw [canonical, ← collectionOfText_collectionText]
  exact .plain (Shape.text_sound _) (fun same => by rw [same]) <|
    .plain (Shape.text_sound _) (fun same => by rw [same]; rfl) .nil

theorem KeyHistory.restores (r : KeyHistory) (scope : Scope) :
    Layout.Restores scope r codec.layout.fields {} r :=
  .plain (Shape.text_sound _) (fun same => by rw [same]) .nil

theorem CursorRef.restores (r : CursorRef) (scope : Scope) :
    Layout.Restores scope r layout.fields {} r :=
  .plain (Shape.text_sound _) (fun same => by rw [same]) .nil

/-! ## Changes, identities, proposals -/

theorem Change.restores (c : Change) (scope : Scope) :
    Layout.Restores scope c layout.fields {} c :=
  .plain (Shape.text_sound _) (fun same => by rw [same]) <|
  .plain (Shape.bytes_sound _) (fun same => by rw [same]) <|
  .plain (Shape.int64_sound _) (fun same => by rw [same]) <|
  .plain (Shape.int32_sound _) (fun same => by rw [same]) <|
  .plain (Shape.bool_sound _) (fun same => by rw [same]) .nil

theorem ContractId.restores (c : ContractId) (scope : Scope) :
    Layout.Restores scope c layout.fields {} c :=
  .plain (Shape.text_sound _) (fun same => by rw [same]) <|
  .plain (Shape.text_sound _) (fun same => by rw [same]) <|
  .plain (Shape.text_sound _) (fun same => by rw [same]) .nil

theorem Proposal.restores (p : Proposal) (scope : Scope) :
    Layout.Restores scope p layout.fields {} p :=
  .plain (Shape.bytes_sound _) (fun same => by rw [same]) <|
  .plain (Shape.bytes_sound _) (fun same => by rw [same]) <|
  .plain (Shape.bytes_sound _) (fun same => by rw [same]) .nil

/-! ## Calls -/

theorem CallInput.restores (c : CallInput) (scope : Scope) :
    Layout.Restores scope c layout.fields {} c := by
  refine .repeated (fun _ => Shape.bytes_sound _) ?_
  rw [args_append]
  exact .nil

theorem CallDraft.restores {d : CallDraft} {scope : Scope} (outermost : scope.excess = none)
    (stop : scope.stop < addressLimit) : Layout.Restores scope d CallSpec.layout.fields {} d :=
  .optional (b := { d with input := none })
    (fun c _ => Shape.message_sound (by decide) c.restores outermost stop)
    (fun none => by rw [← none]) (fun c given => by rw [← given]) <|
  .optional (fun c _ => Shape.message_sound (by decide) c.restores outermost stop)
    (fun none => by rw [← none]) (fun c given => by rw [← given]) .nil

/-- Both members of a call are written, so that neither is missed when it is read. -/
theorem CallSpec.decode_encode {c : CallSpec} (small : (codec.encode c).length < wireLimit) :
    codec.decode (codec.encode c) = .ok c := by
  have read : codec.layout.read (Scope.whole (codec.encode c)) (codec.encode c) =
      .ok ⟨some c.contract, some c.input⟩ :=
    (Layout.reads_write (by decide) small (CallDraft.restores rfl (lt_addressLimit small))).read
  simp only [Codec.decode, read]
  rfl

/-! ## All formats -/

/-- The message formats that node and contract use. -/
inductive Format
  | keyRead
  | keyWrite
  | keyDelete
  | keyRange
  | keyQuery
  | keyHistory
  | cursorNext
  | cursorClose
  | page
  | entry
  | change
  | contractId
  | callInput
  | callSpec
  | signedProposal
  | proposal
  | message

namespace Format

@[reducible]
def Value : Format → Type
  | .keyRead | .keyDelete => KeyRef
  | .keyWrite => KeyWrite
  | .keyRange => KeyRange
  | .keyQuery => KeyQuery
  | .keyHistory => KeyHistory
  | .cursorNext | .cursorClose => CursorRef
  | .page => Page
  | .entry => Entry
  | .change => Change
  | .contractId => ContractId
  | .callInput => CallInput
  | .callSpec => CallSpec
  | .signedProposal => SignedProposal
  | .proposal => Proposal
  | .message => Message

/-- What it is read into: a call may lack a member while it is read, anything else is complete. -/
@[reducible]
def Draft : Format → Type
  | .callSpec => CallDraft
  | f => f.Value

def codec : (f : Format) → Codec f.Draft f.Value
  | .keyRead => KeyRef.getCodec
  | .keyWrite => KeyWrite.codec
  | .keyDelete => KeyRef.deleteCodec
  | .keyRange => KeyRange.codec
  | .keyQuery => KeyQuery.codec
  | .keyHistory => KeyHistory.codec
  | .cursorNext => CursorRef.nextCodec
  | .cursorClose => CursorRef.closeCodec
  | .page => Page.codec
  | .entry => Entry.codec
  | .change => Change.codec
  | .contractId => ContractId.codec
  | .callInput => CallInput.codec
  | .callSpec => CallSpec.codec
  | .signedProposal => SignedProposal.codec
  | .proposal => Proposal.codec
  | .message => Message.codec

/-- A value as it is read: on the wire the empty collection is none. -/
def canonical : (f : Format) → f.Value → f.Value
  | .keyRead | .keyDelete => KeyRef.canonical
  | .keyWrite => KeyWrite.canonical
  | .keyRange => KeyRange.canonical
  | .keyQuery => KeyQuery.canonical
  | .keyHistory | .cursorNext | .cursorClose | .page | .entry | .change | .contractId | .callInput
  | .callSpec | .signedProposal | .proposal | .message => id

/-- In every format, reading what was written for a value succeeds, and gives the value back, but
for an empty collection, which is read as none; provided that what was written fits the wire
format. -/
theorem decode_encode_eq_canonical (f : Format) (v : f.Value)
    (small : (f.codec.encode v).length < wireLimit) :
    f.codec.decode (f.codec.encode v) = .ok (f.canonical v) := by
  cases f with
  | keyRead | keyDelete => exact Codec.decode_encode_plain (by decide) small (KeyRef.restores v _)
  | keyWrite => exact Codec.decode_encode_plain (by decide) small (KeyWrite.restores v _)
  | keyRange => exact Codec.decode_encode_plain (by decide) small (KeyRange.restores v _)
  | keyQuery => exact Codec.decode_encode_plain (by decide) small (KeyQuery.restores v _)
  | keyHistory => exact Codec.decode_encode_plain (by decide) small (KeyHistory.restores v _)
  | cursorNext | cursorClose =>
    exact Codec.decode_encode_plain (by decide) small (CursorRef.restores v _)
  | page => exact Page.decode_encode small
  | entry => exact Entry.decode_encode small
  | change => exact Codec.decode_encode_plain (by decide) small (Change.restores v _)
  | contractId => exact Codec.decode_encode_plain (by decide) small (ContractId.restores v _)
  | callInput => exact Codec.decode_encode_plain (by decide) small (CallInput.restores v _)
  | callSpec => exact CallSpec.decode_encode small
  | signedProposal => exact Codec.decode_encode_plain (by decide) small (SignedProposal.restores v _)
  | proposal => exact Codec.decode_encode_plain (by decide) small (Proposal.restores v _)
  | message => exact Message.decode_encode small

/-- A change before the epoch is read back with its signs, a message with a proposal that is
empty, and a call without arguments; a write to the empty collection is read as a public one. -/
theorem decode_encode_eq_canonical_edges :
    (Change.codec.encode ⟨"t", [], -1, -5, true⟩).length < wireLimit ∧
    Change.codec.decode (Change.codec.encode ⟨"t", [], -1, -5, true⟩) =
      .ok ⟨"t", [], -1, -5, true⟩ ∧
    (Message.codec.encode ⟨.keepalive, "ch", "t", [], some {}⟩).length < wireLimit ∧
    Message.codec.decode (Message.codec.encode ⟨.keepalive, "ch", "t", [], some {}⟩) =
      .ok ⟨.keepalive, "ch", "t", [], some {}⟩ ∧
    (CallSpec.codec.encode ⟨{}, {}⟩).length < wireLimit ∧
    CallSpec.codec.decode (CallSpec.codec.encode ⟨{}, {}⟩) = .ok ⟨{}, {}⟩ ∧
    (KeyWrite.codec.encode ⟨"k", [1], some ""⟩).length < wireLimit ∧
    KeyWrite.codec.decode (KeyWrite.codec.encode ⟨"k", [1], some ""⟩) = .ok ⟨"k", [1], none⟩ := by
  have change : (Change.codec.encode ⟨"t", [], -1, -5, true⟩).length < wireLimit := by
    decide +kernel
  have message : (Message.codec.encode ⟨.keepalive, "ch", "t", [], some {}⟩).length < wireLimit := by
    decide +kernel
  have call : (CallSpec.codec.encode ⟨{}, {}⟩).length < wireLimit := by decide +kernel
  have write : (KeyWrite.codec.encode ⟨"k", [1], some ""⟩).length < wireLimit := by decide +kernel
  exact ⟨change, decode_encode_eq_canonical .change _ change,
    message, decode_encode_eq_canonical .message _ message,
    call, decode_encode_eq_canonical .callSpec _ call,
    write, decode_encode_eq_canonical .keyWrite _ write⟩

end Format

end ContractNode
