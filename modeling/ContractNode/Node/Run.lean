import ContractNode.Node.Clock
import ContractNode.Node.Interface

/-!
# Runs

What comes from outside as data, and the nodes that it can lead to.

* `Act` : something that comes from outside;
* `Node.act` : a node carries an act out;
* `Node.step`, `Node.steps` : it does so and comes to rest, once and for any number of acts.
-/

namespace ContractNode

/-- Something that comes from outside. -/
inductive Act
  | openSession (config : SessionConfig) (access : AccessPolicy) (launcher : Launcher)
  | start (s : SessionId)
  | contractSends (s : SessionId) (m : Message)
  | contractReads (s : SessionId)
  | contractCloses (s : SessionId)
  | contractDrops (s : SessionId)
  | breakReceive (s : SessionId) (e : StreamError)
  | breakSend (s : SessionId) (broken : Bool)
  | handle (s : SessionId) (m : Message)
  | notify (s : SessionId) (m : Message)
  | trigger (s : SessionId) (m : Message) (forward : Bool)
  | send (s : SessionId) (m : Message)
  | deregister (s : SessionId)
  | ready (s : SessionId) (channel tx : String) (signedProposal : Option SignedProposal)
      (proposal : Option Proposal)
  | poll (s : SessionId) (context : Nat)
  | deleteContext (s : SessionId) (channel tx : String)
  | execute (s : SessionId) (label channel : String) (m : Message)
      (signedProposal : Option SignedProposal) (proposal : Option Proposal)
  | run (s : SessionId) (label : String) (i : Invocation)
  | awaitReady (s : SessionId) (capacity : Nat)
  | pollReady (s : SessionId)
  | dropReady (s : SessionId)
  | registerKey (key : String) (s : SessionId)
  | deregisterKey (key : String)
  | createChannel (channel : String)
  | seed (channel tx space : String) (collection : Option String)
      (entries : List (String × Bytes))
  | gate (key : String)
  | ungate (key : String)
  | pass (span : Nat)

namespace Node

/-- A node carries an act out. What it answers is no part of the node. -/
def act (n : Node) : Act → Node
  | .openSession config access launcher => (n.openSession config access launcher).2
  | .start s => (n.start s).2
  | .contractSends s m => (n.contractSends s m).2
  | .contractReads s => (n.drain s).2
  | .contractCloses s => n.contractCloses s
  | .contractDrops s => n.contractDrops s
  | .breakReceive s e => (n.breakReceive s e).2
  | .breakSend s broken => n.breakSend s broken
  | .handle s m => n.handle s m
  | .notify s m => n.notify s m
  | .trigger s m forward => (n.trigger s m forward).2
  | .send s m => (n.send s m).2
  | .deregister s => n.deregister s
  | .ready s channel tx signedProposal proposal =>
    (n.ready s channel tx signedProposal proposal).2
  | .poll s context => (n.poll s context).2
  | .deleteContext s channel tx => n.deleteContext s channel tx
  | .execute s label channel m signedProposal proposal =>
    n.execute s label channel m signedProposal proposal
  | .run s label i => n.run s label i
  | .awaitReady s capacity => n.awaitReady s capacity
  | .pollReady s => (n.pollReady s).2
  | .dropReady s => n.dropReady s
  | .registerKey key s => (n.registerKey key s).2
  | .deregisterKey key => n.deregisterKey key
  | .createChannel channel => { n with ledger := n.ledger.createChannel channel }
  | .seed channel tx space collection entries => (n.seed channel tx space collection entries).2
  | .gate key => n.gate key
  | .ungate key => n.ungate key
  | .pass span => n.pass span

def step (n : Node) (a : Act) : Node := (n.act a).settle

/-- A node carries acts out, one after the other, and comes to rest after each of them. -/
def steps (n : Node) (acts : List Act) : Node := acts.foldl step n

@[simp] theorem steps_nil (n : Node) : n.steps [] = n := rfl

@[simp] theorem steps_cons (n : Node) (a : Act) (acts : List Act) :
    n.steps (a :: acts) = (n.step a).steps acts := rfl

theorem steps_append (n : Node) (acts acts' : List Act) :
    n.steps (acts ++ acts') = (n.steps acts).steps acts' := List.foldl_append

end Node

end ContractNode
