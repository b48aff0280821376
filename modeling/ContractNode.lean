import ContractNode.Node.Rest
import ContractNode.Node.Run
import ContractNode.Proofs.Registered
import ContractNode.Proofs.Return
import ContractNode.Proofs.Books
import ContractNode.Proofs.Stored
import ContractNode.Proofs.Confined
import ContractNode.Proofs.Answers
import ContractNode.Proofs.Markers
import ContractNode.Proofs.Scanned
import ContractNode.Proofs.Matched
import ContractNode.Proofs.Drained
import ContractNode.Proofs.Told
import ContractNode.Proofs.LeftOpen
import ContractNode.Proofs.Slots
import ContractNode.Proofs.Verdicts
import ContractNode.Proofs.Reached
import ContractNode.Proofs.Relayed
import ContractNode.Proofs.Formats
import ContractNode.Proofs.Delivery
import ContractNode.Proofs.Annals
import ContractNode.Proofs.Lifetime
import ContractNode.Proofs.Admission
import ContractNode.Proofs.Forwarded
import ContractNode.Proofs.Headlong
import ContractNode.Proofs.Readiness
import ContractNode.Proofs.Resolving
import ContractNode.Proofs.Refusal
import ContractNode.Proofs.Inert
import ContractNode.Proofs.Failures
import ContractNode.Proofs.Finding
import ContractNode.Proofs.Latest
import ContractNode.Proofs.Occurrences
import ContractNode.Proofs.Rearranging
