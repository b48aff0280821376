import ContractNode.Contract.Call
import ContractNode.Ledger.Basic
import ContractNode.Message.Basic
import ContractNode.Session.Error

/-!
# Calls from contract to contract

* `Invocation` : a call under way, with the rights that the called contract has on the ledger;
* `CallSpec.target`, `CallSpec.named` : where a call goes, and the call with the plain name of that;
* `AccessPolicy` : which contracts may be called;
* `Launcher` : who runs called contracts: the sessions of the node, or an echo that answers at once.
-/

namespace ContractNode

/-- A call under way. -/
structure Invocation where
  target : ContractInstance
  spec : CallSpec
  /-- What the target is sent. -/
  message : Message
  simulator : Simulator
  historian : Option Historian := none
  signedProposal : Option SignedProposal := none
  proposal : Option Proposal := none
deriving DecidableEq, Repr

/-- Where a call goes: the parts of the called name, with the caller's channel where it names none,
and the version of the called identity where it has none. -/
def CallSpec.target (c : CallSpec) (channel : String) : ContractInstance :=
  let i := ContractInstance.ofName c.contract.name
  { i with
    channel := if i.channel = "" then channel else i.channel
    version := if i.version = "" then c.contract.version else i.version }

/-- A call with the plain name of its target. -/
def CallSpec.named (c : CallSpec) (name : String) : CallSpec :=
  { c with contract := { c.contract with name := name } }

/-- Which contracts may be called: all but the denied ones. -/
structure AccessPolicy where
  denied : List String := []
deriving DecidableEq, Repr

def AccessPolicy.word (b : Bool) : String := if b then "true" else "false"

/-- Whether a call to a target is allowed. A denial tells what it was decided on. -/
def AccessPolicy.check (p : AccessPolicy) (signedProposal : Option SignedProposal)
    (proposal : Option Proposal) (target : ContractInstance) : Except AccessError Unit :=
  if p.denied.contains target.name then
    .error (.denied (String.intercalate "|" [target.name, target.version, target.channel,
      word signedProposal.isSome, word proposal.isSome]))
  else .ok ()

/-- A launcher that runs nothing and answers with a description of the call. -/
structure Echo where
  /-- The contracts that need no launch. -/
  system : List String := []
  /-- The contracts that fail to launch. -/
  launchFails : List String := []
  /-- The contracts that fail to run. -/
  executeFails : List String := []
deriving DecidableEq, Repr

namespace Echo

def describe (i : Invocation) : Bytes :=
  [Text.bytes i.target.name, Text.bytes i.target.version, Text.bytes i.target.channel,
    Text.bytes i.spec.contract.path, Text.bytes i.spec.contract.name,
    Text.bytes i.spec.contract.version,
    List.intercalate (Text.bytes ",") (i.spec.input.args.map Text.repair),
    Text.bytes (AccessPolicy.word i.historian.isSome),
    Text.bytes (AccessPolicy.word i.signedProposal.isSome),
    Text.bytes (AccessPolicy.word i.proposal.isSome),
    Text.bytes i.message.kind.name, Text.bytes i.message.channel, Text.bytes i.message.tx]
  |> List.intercalate (Text.bytes "|")

def launch (e : Echo) (i : Invocation) : Except LaunchError Unit :=
  if e.launchFails.contains i.target.name then .error (.launchFailed "injected launch") else .ok ()

def execute (e : Echo) (i : Invocation) : Except LaunchError Message :=
  if e.executeFails.contains i.target.name then .error (.executionFailed "injected execute")
  else .ok ⟨.completed, i.message.channel, i.message.tx, describe i, none⟩

end Echo

/-- Who runs called contracts. -/
inductive Launcher
  | directory
  | echo (e : Echo)
deriving DecidableEq, Repr

end ContractNode
