import ContractNode.Contract.Identity

/-!
# Calls to a contract

* `CallInput` : the arguments of a call;
* `CallSpec` : the called contract and the arguments, which is what a contract sends to call
  another one. A call must say whom it is for; without arguments there are none.
-/

namespace ContractNode

structure CallInput where
  args : List Bytes := []
deriving DecidableEq, Repr

namespace CallInput

def layout : Layout CallInput where
  blank := {}
  fields := [.repeated 1 .bytes (·.args) fun v c => { c with args := c.args ++ [v] }]

def codec : Codec CallInput CallInput := .plain "ContractInput" layout

end CallInput

/-- A called contract and the arguments of the call. -/
structure CallSpec where
  contract : ContractId
  input : CallInput := {}
deriving DecidableEq, Repr

structure CallDraft where
  contract : Option ContractId := none
  input : Option CallInput := none
deriving DecidableEq, Repr

namespace CallSpec

def layout : Layout CallDraft where
  blank := {}
  fields := [
    .optional 1 (.message ContractId.layout) (·.contract) fun v d => { d with contract := some v },
    .optional 2 (.message CallInput.layout) (·.input) fun v d => { d with input := some v }]

/-- The call of a draft that names the called contract. -/
def ofDraft (d : CallDraft) : Except CodecError CallSpec :=
  match d.contract with
  | none => .error (.invalidType "Cannot convert ContractSpec without a contract id")
  | some contract => .ok ⟨contract, d.input.getD {}⟩

def codec : Codec CallDraft CallSpec where
  name := "ContractSpec"
  layout := layout
  draft c := ⟨some c.contract, some c.input⟩
  complete := ofDraft

end CallSpec

end ContractNode
