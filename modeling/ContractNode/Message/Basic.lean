import ContractNode.Message.Kind
import ContractNode.Message.Proposal

/-!
# Messages

* `Message` : the envelope of everything that node and contract send each other;
* `Message.codec` : its format;
* `Message.listedBefore` : the order in which messages that belong together are listed;
* `MessageDraft` : a message under construction, of which only the kind is required.
-/

namespace ContractNode

/-- The envelope of everything that node and contract send each other: what it is about, the
transaction it belongs to, and a payload that only the receiver reads. -/
structure Message where
  kind : MessageKind
  channel : String := ""
  tx : String := ""
  payload : Bytes := []
  proposal : Option SignedProposal := none
deriving DecidableEq, Repr

namespace Message

def layout : Layout Message where
  blank := { kind := .undefined }
  fields := [
    .plain 1 (.choice MessageKind.code MessageKind.ofCode?) .undefined (·.kind)
      fun v m => { m with kind := v },
    .plain 2 .bytes [] (·.payload) fun v m => { m with payload := v },
    .plain 3 .text "" (·.tx) fun v m => { m with tx := v },
    .optional 4 (.message SignedProposal.layout) (·.proposal)
      fun v m => { m with proposal := some v },
    .plain 5 .text "" (·.channel) fun v m => { m with channel := v }]

def codec : Codec Message Message := .plain "ContractMessage" layout

/-- Whether one message is listed no later than another one: messages are listed by kind, then by
channel, by transaction and by payload. -/
def listedBefore (a b : Message) : Bool :=
  if a.kind != b.kind then a.kind.code < b.kind.code
  else if a.channel != b.channel then Text.Before a.channel b.channel
  else if a.tx != b.tx then Text.Before a.tx b.tx
  else a.payload ≤ b.payload

end Message

inductive DraftError
  | missingField (field : String)
deriving DecidableEq, Repr

def DraftError.message : DraftError → String
  | .missingField field => "'" ++ field ++ "' field is required"

structure MessageDraft where
  kind : Option MessageKind := none
  channel : Option String := none
  tx : Option String := none
  payload : Option Bytes := none
  proposal : Option SignedProposal := none
deriving DecidableEq, Repr

namespace MessageDraft

/-- A draft that already holds everything a message does. -/
def ofMessage (m : Message) : MessageDraft :=
  ⟨some m.kind, some m.channel, some m.tx, some m.payload, m.proposal⟩

/-- The finished message. What was not given is empty; the kind has to be given. -/
def build (d : MessageDraft) : Except DraftError Message :=
  match d.kind with
  | none => .error (.missingField "message_type")
  | some kind =>
    .ok ⟨kind, d.channel.getD "", d.tx.getD "", d.payload.getD [], d.proposal⟩

@[simp] theorem build_ofMessage (m : Message) : (ofMessage m).build = .ok m := rfl

theorem kind_of_build {d : MessageDraft} {m : Message} (h : d.build = .ok m) :
    d.kind = some m.kind := by
  rw [build] at h
  split at h
  · cases h
  · rename_i given
    cases h
    exact given

end MessageDraft

end ContractNode
