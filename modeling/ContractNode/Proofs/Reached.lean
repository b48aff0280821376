import ContractNode.Proofs.Calling
import ContractNode.Proofs.Listed
import ContractNode.Proofs.Vital

/-!
# Whom calls reach

A session is registered under what the name of its contract's identity says. A call asks the version
field of the called identity as well, where the name has no version.

* `ContractId.Coherent` : the version field adds nothing to the name;
* `key_target`, `resolve_iff` : a call by an identity goes to the session that is registered under
  it if and only if the identity is coherent;
* `Session.Astray` : a session has stopped its outbound loop without having ended, which never is;
* `reached_of_run` : whom a call by an identity reaches, at any point of a run;
* `unreached_of_version` : a session that such a call does not reach.
-/

namespace ContractNode

/-! ## Keys -/

/-- The version field of an identity has nothing to say where the name leaves the version open. -/
def ContractId.Coherent (id : ContractId) : Prop :=
  (ContractInstance.ofName id.name).version = "" → id.version = ""

instance (id : ContractId) : Decidable id.Coherent := by
  unfold ContractId.Coherent
  infer_instance

theorem ContractInstance.versioned_ne (name version : String) : name ++ ":" ++ version ≠ name := by
  intro same
  have lengths := congrArg String.length same
  have colon : ":".length = 1 := rfl
  rw [String.length_append, String.length_append, colon] at lengths
  omega

namespace CallSpec

variable (spec : CallSpec) (channel : String)

theorem name_target :
    (spec.target channel).name = (ContractInstance.ofName spec.contract.name).name := rfl

/-- A call that goes by a coherent identity goes to what a session of that identity is registered
under. -/
theorem key_target_of_coherent (coherent : spec.contract.Coherent) :
    (spec.target channel).key = (ContractInstance.ofName spec.contract.name).key := by
  unfold target ContractInstance.key
  by_cases plain : (ContractInstance.ofName spec.contract.name).version = ""
  · simp only [plain, coherent plain, if_true]
  · simp only [plain, if_false]

/-- A call that goes by an incoherent identity is for the version that only the field states. -/
theorem target_of_not_coherent (incoherent : ¬ spec.contract.Coherent) :
    (spec.target channel).version ≠ "" ∧
      (spec.target channel).key ≠ (ContractInstance.ofName spec.contract.name).key := by
  unfold ContractId.Coherent at incoherent
  obtain ⟨plain, version⟩ := Classical.not_imp.1 incoherent
  have field : (spec.target channel).version = spec.contract.version := if_pos plain
  refine ⟨field ▸ version, ?_⟩
  unfold ContractInstance.key
  rw [field, if_neg version, if_pos plain, name_target]
  exact ContractInstance.versioned_ne _ _

theorem key_target :
    (spec.target channel).key = (ContractInstance.ofName spec.contract.name).key ↔
      spec.contract.Coherent :=
  ⟨fun same => Classical.byContradiction fun incoherent =>
    (spec.target_of_not_coherent channel incoherent).2 same, spec.key_target_of_coherent channel⟩

end CallSpec

namespace Directory

variable {d : Directory} {i : ContractInstance} {t : SessionId}

theorem resolve_of_get? (entry : d.get? i.key = some t) : d.resolve i = .ok t := by
  simp only [resolve, entry]

/-- A target with a version is served by the session under its key, or by none. -/
theorem resolve_of_version (version : i.version ≠ "") :
    d.resolve i = match d.get? i.key with
      | some t => .ok t
      | none => .error (.launchFailed ("contract " ++ i.key ++ " is not running")) := by
  cases entry : d.get? i.key with
  | none => simp only [resolve, entry, if_neg version]
  | some t => simp only [resolve, entry]

end Directory

namespace Node

variable {P : Act → Prop} {n n' : Node} {s t : SessionId} {ses : Session} {m : Message}
  {id : ContractId}

theorem GoesBy.unique {id' : ContractId} (h : n.GoesBy t id) (h' : n.GoesBy t id') : id = id' :=
  Option.some.inj (h.2.symm.trans h'.2)

/-- A call by the identity under which a session is registered goes to that session if and only if
the identity is coherent. -/
theorem resolve_iff (fair : n.roll.Fair) (spec : CallSpec) (goes : n.GoesBy t spec.contract)
    (channel : String) :
    n.directory.resolve (spec.target channel) = .ok t ↔ spec.contract.Coherent := by
  constructor
  · intro resolved
    refine Classical.byContradiction fun incoherent => ?_
    have version := (spec.target_of_not_coherent channel incoherent).1
    rw [Directory.resolve_of_version version] at resolved
    split at resolved
    · rename_i u entry
      cases resolved
      -- A session is listed under the key of one identity only.
      obtain ⟨id, key, goes'⟩ := (listed_iff fair _ _).1 entry
      rw [← goes.unique goes'] at key
      exact incoherent ((spec.key_target channel).1 key.symm)
    · cases resolved
  · intro coherent
    refine Directory.resolve_of_get? ?_
    rw [spec.key_target_of_coherent channel coherent]
    exact (listed_iff fair _ _).2 ⟨_, rfl, goes⟩

end Node

/-! ## Sessions that go on -/

/-- A session has stopped its outbound loop without having ended. -/
def Session.Astray (ses : Session) : Prop := ses.outbound = .stopped ∧ ses.phase ≠ .ended

theorem Session.lasting_notAstray : Session.Lasting (¬ ·.Astray) where
  abides same sound := by
    unfold Astray at sound ⊢
    rwa [same.outbound, same.phase]
  advance before _ sound astray := sound ⟨astray.1, before⟩
  start _ _ astray := by cases astray.1
  stopInbound _ _ ended _ _ astray := astray.2 ended
  stopOutbound _ _ ended _ astray := astray.2 ended

namespace Node

variable {P : Act → Prop} {n n' n'' : Node} {s t : SessionId} {ses : Session} {m : Message}

/-- Whatever happens, a session that has not ended has not stopped its outbound loop. -/
theorem not_astray_of_moves {channels historyless system : List String} {drill : Drill}
    (moves : Moves P (withChannels channels historyless system drill) n)
    (found : n.session? s = some ses) : ¬ ses.Astray := by
  exact holds_of_moves Session.lasting_notAstray (fun _ _ _ astray => by cases astray.1) moves found

/-! ## Whom calls reach -/

/-- The call begins an execution on a session. -/
def Placed.Reaches (call : n.Placed s m) (t : SessionId) (n' : Node) : Prop :=
  ∃ w : Call, w.session = t ∧ w.origin = call.origin ∧ n.Begins w call.context call.message n'

theorem moves_run {run : Nat → Node} {i : Nat} (moves : ∀ j < i, Move P (run j) (run (j + 1))) :
    Moves P (run 0) (run i) := by
  induction i with
  | zero => exact .refl
  | succ i ih =>
    have earlier := ih fun j before => moves j (Nat.lt_succ_of_lt before)
    exact earlier.tail (moves i (Nat.lt_succ_self i))

theorem GoesBy.goes_on {channels historyless system : List String} {drill : Drill} {id : ContractId}
    (goes : n.GoesBy t id) (fair : n.roll.Fair)
    (moves : Moves P (withChannels channels historyless system drill) n) :
    ∃ ses, n.session? t = some ses ∧ ses.outbound ≠ .stopped := by
  obtain ⟨ses, found, live⟩ := goes.live fair
  refine ⟨ses, found, fun stopped => not_astray_of_moves moves found ⟨stopped, fun ended => ?_⟩⟩
  rw [ended] at live
  rcases live with phase | phase
  all_goals cases phase

variable {run : Nat → Node} {i : Nat} {id : ContractId}

/-- A session is registered under an identity and has no context for a transaction. Another session,
or it itself, has been asked in that transaction for a call by that identity, whose thread takes it
up, and nothing stands against it as far as the caller is concerned. If the identity is coherent, the
call begins an execution on the first session. Otherwise it does not: the call is for another
session, or it is answered with an error. -/
theorem reached_of_run (bySession : ∀ a, P a → a.isByHand = false)
    {channels historyless system : List String} {drill : Drill}
    (start : run 0 = withChannels channels historyless system drill)
    (moves : ∀ j < i, Move P (run j) (run (j + 1))) (latest : Latest run t id i)
    (call : (run i).Placed s m) (named : call.spec.contract = id)
    (fresh : ∀ ses, (run i).session? t = some ses →
      ses.transactions.find? call.target.channel call.ctx.tx = none) :
    (call.Reaches t ((run i).dial s m) ↔ id.Coherent) ∧
      (¬ id.Coherent → (∃ u, u ≠ t ∧ (run i).directory.resolve call.target = .ok u) ∨
        ((run i).dial s m).calls = (run i).calls ∧ (run i).Sends s
          (reply m (.error (.launch
            (.launchFailed ("contract " ++ call.target.key ++ " is not running")))))
          ((run i).dial s m)) := by
  have fair₀ : (run 0).roll.Fair := start ▸ fair_withChannels ..
  have blank (u : SessionId) : ((run 0).roll.standing u).isRegistered = false := by
    rw [start]
    rfl
  have fair : (run i).roll.Fair := fair_run bySession fair₀ moves
  have goes : (run i).GoesBy t call.spec.contract :=
    named ▸ (goesBy_run bySession fair₀ blank moves t id).2 latest
  have resolves : (run i).directory.resolve call.target = .ok t ↔ id.Coherent :=
    named ▸ resolve_iff fair call.spec goes call.ctx.channel
  have past : Moves P (withChannels channels historyless system drill) (run i) :=
    start ▸ moves_run moves
  constructor
  · constructor
    · rintro ⟨w, rfl, -, begins⟩
      exact resolves.1 (resolved_of_calls call begins.calls)
    · intro coherent
      obtain ⟨ses, found, on⟩ := goes.goes_on fair past
      have every : (run i).Every Context.Attested :=
        every_moves hereditary_attested (every_withChannels _ _ _ _) (fun _ _ => trivial) past
      have attested := (every s call.ses call.found).found call.registered call.known
      exact begins_of_resolved call attested (resolves.2 coherent) found on (fresh ses found)
  · intro incoherent
    have version := (call.spec.target_of_not_coherent call.ctx.channel (named ▸ incoherent)).1
    have resolved := Directory.resolve_of_version (d := (run i).directory) version
    split at resolved
    · rename_i u entry
      refine .inl ⟨u, ?_, resolved⟩
      rintro rfl
      exact incoherent (resolves.1 resolved)
    · exact .inr (sends_refused call resolved)

/-- Two contracts register, and one is asked for a transaction. -/
def meetingRun (tell : SessionId → Message → Act) (id : ContractId) : List Act :=
  let contract (id : ContractId) : Message :=
    { kind := .register, payload := ContractId.codec.encode id }
  [.openSession {} {} .directory, .start 0, .openSession {} {} .directory, .start 1,
    tell 0 (contract id), tell 1 (contract { name := "dd" }), tell 1 { kind := .ready },
    .execute 1 "a" "ch" { kind := .transaction, tx := "t1" } none none]

/-- The contract that is asked for the transaction calls another one. -/
def meetingCall (id : ContractId) : Message :=
  { kind := .invokeContract, channel := "ch", tx := "t1"
    payload := CallSpec.codec.encode { contract := id, input := { args := [[97]] } } }

/-- A contract that states its version outside of its name is not found by the identity that it has
registered under. -/
theorem unreached_of_version :
    let id : ContractId := { name := "cc", version := "1.0" }
    let n := (withChannels ["ch"] [] [] {}).steps (meetingRun .contractSends id)
    let n' := n.step (.contractSends 1 (meetingCall id))
    n.directory.get? "cc" = some 0 ∧ ((n.session? 0).bind (·.identity)) = some id ∧
      n'.calls = [] ∧
      (n'.session? 0).map (·.link.outbox.queue) = (n.session? 0).map (·.link.outbox.queue) ∧
      (n'.session? 1).bind (·.link.outbox.queue.getLast?) =
        some (reply (meetingCall id)
          (.error (.launch (.launchFailed "contract cc:1.0 is not running")))) := by
  decide +kernel

theorem reached_of_run_meetingRun :
    let id : ContractId := { name := "cc:1.0", version := "1.0" }
    let acts := meetingRun .handle id ++ [.handle 1 (meetingCall id)]
    let run := fun j => (acts.take j).foldl act (withChannels ["ch"] [] [] {})
    ∃ call : (run 9).Placed 1 (meetingCall id), Latest run 0 id 9 ∧
      call.Reaches 0 ((run 9).dial 1 (meetingCall id)) := by
  intro id acts run
  have given : ∀ a ∈ acts, a.isByHand = false ∧ ∀ span, a ≠ .pass span := by
    simp [acts, meetingRun, Act.isByHand]
  have start : run 0 = withChannels ["ch"] [] [] {} := rfl
  have moves : ∀ j < 9, Move (·.isByHand = false) (run j) (run (j + 1)) :=
    fun j before => move_acts given before _
  have goes : (run 9).GoesBy 0 id := ⟨by decide +kernel, by decide +kernel⟩
  have latest : Latest run 0 id 9 :=
    (goesBy_run (fun _ bySession => bySession) (start ▸ fair_withChannels ..) (fun _ => rfl) moves
      0 id).1 goes
  have there : ((run 9).placed? 1 (meetingCall id)).any (fun call =>
      call.spec.contract = id ∧ ((run 9).session? 0).all fun ses =>
        ses.transactions.find? call.target.channel call.ctx.tx = none) = true := by decide +kernel
  obtain ⟨call, _, facts⟩ := (Option.any_eq_true ..).1 there
  obtain ⟨named, fresh⟩ := of_decide_eq_true facts
  refine ⟨call, latest, (reached_of_run (fun _ bySession => bySession) start moves latest call named
    (fun ses found => ?_)).1.2 (by decide)⟩
  simpa [found] using fresh

end Node

end ContractNode
