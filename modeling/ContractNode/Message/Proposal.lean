import ContractNode.Wire.Codec

/-!
# Proposals

* `Proposal` : what a client asks the node to run;
* `SignedProposal` : a proposal's bytes with the signature of its creator.
-/

namespace ContractNode

/-- A proposal together with the signature of its creator. -/
structure SignedProposal where
  proposal : Bytes := []
  signature : Bytes := []
deriving DecidableEq, Repr

def SignedProposal.layout : Layout SignedProposal where
  blank := {}
  fields := [
    .plain 1 .bytes [] (·.proposal) fun v p => { p with proposal := v },
    .plain 2 .bytes [] (·.signature) fun v p => { p with signature := v }]

def SignedProposal.codec : Codec SignedProposal SignedProposal :=
  .plain "SignedProposal" SignedProposal.layout

/-- The proposal a transaction was started from. -/
structure Proposal where
  header : Bytes := []
  payload : Bytes := []
  extension : Bytes := []
deriving DecidableEq, Repr

def Proposal.layout : Layout Proposal where
  blank := {}
  fields := [
    .plain 1 .bytes [] (·.header) fun v p => { p with header := v },
    .plain 2 .bytes [] (·.payload) fun v p => { p with payload := v },
    .plain 3 .bytes [] (·.extension) fun v p => { p with extension := v }]

def Proposal.codec : Codec Proposal Proposal := .plain "Proposal" Proposal.layout

end ContractNode
