import ContractNode.Wire.Codec

/-!
# The identity of a contract

A contract registers under a composite name, `name:version/channel`, of which every part but the
name may be missing.

* `ContractId` : the identity as a contract states it;
* `ContractInstance` : the parts of a composite name, found by `ContractInstance.ofName`;
* `ContractInstance.key` : what a session of the contract is registered under.
-/

namespace ContractNode

/-- The identity of a contract as it states it. -/
structure ContractId where
  path : String := ""
  name : String := ""
  version : String := ""
deriving DecidableEq, Repr

namespace ContractId

def layout : Layout ContractId where
  blank := {}
  fields := [
    .plain 1 .text "" (·.path) fun v c => { c with path := v },
    .plain 2 .text "" (·.name) fun v c => { c with name := v },
    .plain 3 .text "" (·.version) fun v c => { c with version := v }]

def codec : Codec ContractId ContractId := .plain "ContractId" layout

end ContractId

/-- The parts of a composite contract name. -/
structure ContractInstance where
  name : String := ""
  version : String := ""
  channel : String := ""
deriving DecidableEq, Repr

namespace ContractInstance

/-- What precedes the first `c` of a text, and what follows it. Without a `c` all of it precedes
and nothing follows. -/
def cut (c : Char) (s : List Char) : List Char × List Char :=
  (s.takeWhile (· ≠ c), (s.dropWhile (· ≠ c)).drop 1)

theorem not_mem_cut (c : Char) (s : List Char) : c ∉ (cut c s).1 := by
  induction s with
  | nil => simp [cut]
  | cons d s ih =>
    by_cases h : d = c
    · simp [cut, h]
    · have : (cut c (d :: s)).1 = d :: (cut c s).1 := by simp [cut, h]
      rw [this]
      simp [Ne.symm h, ih]

/-- Nothing but the first `c` is lost. -/
theorem cut_append (c : Char) (s : List Char) :
    (cut c s).1 ++ (if c ∈ s then c :: (cut c s).2 else []) = s := by
  induction s with
  | nil => simp [cut]
  | cons d s ih =>
    by_cases h : d = c
    · simp [cut, h]
    · have first : (cut c (d :: s)).1 = d :: (cut c s).1 := by simp [cut, h]
      have second : (cut c (d :: s)).2 = (cut c s).2 := by simp [cut, h]
      simp [first, second, Ne.symm h, ih]

/-- Takes a name of the form `name:version/channel` apart. The channel is what follows the first
`/`; the version is what follows the first `:` before that. -/
def ofName (s : String) : ContractInstance :=
  let (contract, channel) := cut '/' s.toList
  let (name, version) := cut ':' contract
  ⟨String.ofList name, String.ofList version, String.ofList channel⟩

/-- What a session of the contract is registered under: `name:version`, or only the name where
there is no version. -/
def key (i : ContractInstance) : String :=
  if i.version = "" then i.name else i.name ++ ":" ++ i.version

end ContractInstance

end ContractNode
