import ContractNode.Proofs.Aftermath
import ContractNode.Proofs.Stored

/-!
# Contracts are confined

What becomes of a request that is no call depends on the ledger only through what the namespace of
the contract holds on the channel that the transaction's context has rights on.

* `Node.Beside R` : two nodes are the same but for their ledgers, which are related by `R`;
* `ServesBeside` : serving a request leads to two such nodes. So does coming to rest after it has
  arrived (`beside_step`);
* `Node.Shares`, `Node.Follows` : two ledgers agree where a request may look, and what becomes of
  it;
* `Node.Confined`, `confined_of_moves` : the contracts of a node are confined, at any point of any
  run.
-/

namespace ContractNode

namespace Node

/-- Two nodes are the same but for their ledgers, which are related. -/
def Beside (R : Ledger → Ledger → Prop) (n n' : Node) : Prop :=
  ∃ l, n' = { n with ledger := l } ∧ R n.ledger l

/-- On a node and on another one with a different ledger, serving a request comes to the same, but
for the ledgers, which are related. -/
def ServesBeside (R : Ledger → Ledger → Prop) (n : Node) (l : Ledger) (s : SessionId) (job : Job) :
    Prop :=
  ∃ l', { n with ledger := l }.serve s job =
      ((n.serve s job).1, { (n.serve s job).2 with ledger := l' }) ∧ R (n.serve s job).2.ledger l'

variable {R : Ledger → Ledger → Prop} {n : Node} {s : SessionId} {ses : Session} {l : Ledger}
  {job : Job} {m : Message} {pool : WorkerPool Job}

/-! ## From serving a request to coming to rest -/

theorem beside_conclude (serves : ServesBeside R n l s job) :
    Beside R (conclude s job (n.serve s job))
      (conclude s job ({ n with ledger := l }.serve s job)) := by
  obtain ⟨l', same, related⟩ := serves
  rw [same]
  generalize n.serve s job = r at related ⊢
  obtain ⟨p, n'⟩ := r
  cases p <;> exact ⟨l', rfl, related⟩

theorem beside_settle {n' : Node} (lull : n.Lull) (beside : Beside R n n') :
    Beside R n.settle n'.settle := by
  obtain ⟨l, rfl, related⟩ := beside
  exact ⟨l, blind_settle lull l, by rw [lull_settle lull]; exact related⟩

/-- On a node at rest, an idle worker serves the request that is submitted. -/
theorem settle_submit (rest : n.AtRest) (found : n.session? s = some ses) (idle : 0 < ses.pool.idle)
    (taken : WorkerPool.take { ses.pool with queue := ses.pool.queue ++ [.job job] } =
      some (.job job, pool)) :
    (n.submit s job).2.settle =
      (conclude s job ((n.modify s fun ses => { ses with pool }).serve s job)).settle := by
  rw [submit_eq found idle]
  have found' := session?_modify (f := fun ses : Session =>
    { ses with pool := { ses.pool with queue := ses.pool.queue ++ [.job job] } }) found
  have took := work?_of_job found' taken
  rw [modify_modify] at took
  exact settle_of_turn (turn?_of_work? rest found took)

theorem atRest_blind (rest : n.AtRest) (l : Ledger) : ({ n with ledger := l } : Node).AtRest := by
  unfold AtRest
  rw [blind_turn? (lull_of_rest rest), rest]
  rfl

theorem blind_submit (n : Node) (l : Ledger) (s : SessionId) (job : Job) :
    (({ n with ledger := l } : Node).submit s job).2 = { (n.submit s job).2 with ledger := l } := by
  have there : ({ n with ledger := l } : Node).session? s = n.session? s := rfl
  unfold submit
  rw [there]
  cases n.session? s with
  | none => rfl
  | some ses =>
    cases submitted : ses.submit job with
    | error e => simp only [submitted]
    | ok ses' =>
      simp only [submitted]
      rfl

theorem ledger_submit (n : Node) (s : SessionId) (job : Job) :
    (n.submit s job).2.ledger = n.ledger := by
  unfold submit
  cases n.session? s with
  | none => rfl
  | some ses =>
    cases submitted : ses.submit job with
    | error e => simp only [submitted]
    | ok ses' =>
      simp only [submitted]
      rfl

/-- Nobody takes a request up while no worker is idle. -/
theorem lull_submit (lull : n.Lull) (found : n.session? s = some ses) (none : ses.pool.idle = 0) :
    (n.submit s job).2.Lull := by
  cases submitted : ses.pool.submit job with
  | mk accepted pool =>
    cases accepted with
    | false =>
      simp only [submit, found, Session.submit, submitted]
      exact lull
    | true =>
      have idle : pool.idle = 0 := by
        unfold WorkerPool.submit at submitted
        split at submitted
        · cases submitted
          exact none
        · cases submitted
      have nothing : pool.take = .none :=
        WorkerPool.take_eq_none_iff.2 fun some => by rw [idle] at some; cases some
      simp only [submit, found, Session.submit, submitted]
      rw [← modify_found found fun ses => { ses with pool }]
      exact lull.modify s fun ses _ lull => ⟨lull.commands, nothing, lull.dials, lull.parked, lull.inbox⟩

theorem beside_submit (rest : n.AtRest) (found : n.session? s = some ses)
    (other : job.kind ≠ .invoke) (related : R n.ledger l)
    (serves : ∀ pool, ServesBeside R (n.modify s fun ses => { ses with pool }) l s job) :
    Beside R (n.submit s job).2.settle (({ n with ledger := l } : Node).submit s job).2.settle := by
  have lull := lull_of_rest rest
  have found' : ({ n with ledger := l } : Node).session? s = some ses := found
  have rest' := atRest_blind rest l
  rcases Nat.eq_zero_or_pos ses.pool.idle with none | idle
  · rw [blind_submit n l s job]
    have kept : R (n.submit s job).2.ledger l := by
      rw [ledger_submit]
      exact related
    exact beside_settle (lull_submit lull found none) ⟨l, rfl, kept⟩
  · have queue := WorkerPool.take_eq_none_iff.1 ((atRest_iff.1 rest).2 s ses found).pool idle
    have taken := take_queued idle queue job
    rw [settle_submit rest found idle taken, settle_submit rest' found' idle taken]
    generalize left : { ses.pool with
      idle := ses.pool.idle - 1, busy := ses.pool.busy ++ [job] } = pool
    have empty : pool.queue = [] := left ▸ queue
    have found₁ := session?_modify (f := fun ses : Session => { ses with pool }) found
    have nothing : WorkerPool.take pool = none := WorkerPool.take_eq_none_iff.2 fun _ => empty
    have taking : (n.modify s fun ses => { ses with pool }).Lull :=
      lull.modify s fun ses _ lull => ⟨lull.commands, nothing, lull.dials, lull.parked, lull.inbox⟩
    exact beside_settle (lull_conclude taking found₁ other empty) (beside_conclude (serves pool))

theorem beside_handle (rest : n.AtRest) (found : n.session? s = some ses)
    (ready : ses.phase = .ready)
    (asks : m.job? = some job) (other : job.kind ≠ .invoke) (related : R n.ledger l)
    (serves : ∀ pool, ServesBeside R (n.modify s fun ses => { ses with pool }) l s job) :
    Beside R (n.handle s m).settle (({ n with ledger := l } : Node).handle s m).settle := by
  have found' : ({ n with ledger := l } : Node).session? s = some ses := found
  rw [handle_of_asks found ready asks, handle_of_asks found' ready asks, if_neg other, if_neg other]
  exact beside_submit rest found other related serves

theorem beside_step (rest : n.AtRest) (found : n.session? s = some ses) (ready : ses.phase = .ready)
    (running : ses.inbound = .running) (sent : (n.contractSends s m).1 = .ok ())
    (asks : m.job? = some job) (other : job.kind ≠ .invoke) (related : R n.ledger l)
    (serves : ∀ pool, ServesBeside R (n.modify s fun ses => { ses with pool }) l s job) :
    Beside R (n.step (.contractSends s m))
      (({ n with ledger := l } : Node).step (.contractSends s m)) := by
  have found' : ({ n with ledger := l } : Node).session? s = some ses := found
  have sent' : (({ n with ledger := l } : Node).contractSends s m).1 = .ok () := by
    unfold contractSends fromContract at sent ⊢
    simp only [found, found'] at sent ⊢
    cases delivered : ses.link.deliver (.ok m) with
    | error e =>
      rw [delivered] at sent
      cases sent
    | ok link => rfl
  rw [step_contractSends rest found ready running sent,
    step_contractSends (atRest_blind rest l) found' ready running sent']
  exact beside_handle rest found ready asks other related serves

/-! ## Where a request may look -/

/-- Two ledgers agree where a request may look: in the namespace of its session's contract, wherever
the context of its transaction has rights. -/
def Shares (n : Node) (l : Ledger) (ses : Session) (job : Job) : Prop :=
  ∀ c ctx name, ses.transactions.find? job.message.channel job.message.tx = some c →
    ses.transactions.context? c = some ctx → ses.space = .ok name → n.Sees l ctx name

/-- What becomes of a request on a node, and on another one with a different ledger. -/
structure Follows (n : Node) (l : Ledger) (ses : Session) (job : Job) (n₁ n₂ : Node) : Prop where
  /-- If the ledgers have the same channels and agree where the request may look, everything becomes
  the same but for the ledgers, and these agree again wherever they agreed. -/
  known : n.ledger.Alike l → n.Shares l ses job → Beside (Ledger.Abreast n.ledger l) n₁ n₂
  /-- If the transaction has no context then however the ledgers differ, everything else becomes the
  same, and they stay as they are. -/
  unknown : ses.transactions.find? job.message.channel job.message.tx = none →
    Beside (fun l₁ l₂ => l₁ = n.ledger ∧ l₂ = l) n₁ n₂

theorem servesBeside_shares (found : n.session? s = some ses) (other : job.kind ≠ .invoke)
    (alike : n.ledger.Alike l) (shares : n.Shares l ses job) (pool : WorkerPool Job) :
    ServesBeside (Ledger.Abreast n.ledger l) (n.modify s fun ses => { ses with pool }) l s job :=
  abreast_serve (n := n.modify s fun ses => { ses with pool }) alike (session?_modify found) other
    fun c ctx name registered known place =>
      ⟨(shares c ctx name registered known place).simulator,
        (shares c ctx name registered known place).historian⟩

theorem servesBeside_unknown (found : n.session? s = some ses)
    (unknown : ses.transactions.find? job.message.channel job.message.tx = none)
    (pool : WorkerPool Job) :
    ServesBeside (fun l₁ l₂ => l₁ = n.ledger ∧ l₂ = l) (n.modify s fun ses => { ses with pool }) l s
      job := by
  have found' := session?_modify (f := fun ses : Session => { ses with pool }) found
  have kept : ((n.modify s fun ses => { ses with pool }).serve s job).2.ledger = n.ledger :=
    congrArg (·.2.ledger) (serve_of_unknown (l := n.ledger) found' unknown)
  exact ⟨l, serve_of_unknown found' unknown, kept, rfl⟩

theorem follows {n₁ n₂ : Node} (found : n.session? s = some ses) (other : job.kind ≠ .invoke)
    (beside : ∀ R : Ledger → Ledger → Prop, R n.ledger l →
      (∀ pool, ServesBeside R (n.modify s fun ses => { ses with pool }) l s job) → Beside R n₁ n₂) :
    n.Follows l ses job n₁ n₂ where
  known alike shares := beside _ (.refl alike) (servesBeside_shares found other alike shares)
  unknown unknown := beside _ ⟨rfl, rfl⟩ (servesBeside_unknown found unknown)

/-! ## Confinement -/

/-- What a contract can find out about the ledger by the requests of a session that are no calls. -/
structure Confined (n : Node) (s : SessionId) (ses : Session) : Prop where
  /-- The contract sends a request to a node at rest. -/
  sent : n.AtRest → ses.phase = .ready → ses.inbound = .running → ∀ m job,
    (n.contractSends s m).1 = .ok () → m.job? = some job → job.kind ≠ .invoke →
      ∀ l, n.Follows l ses job (n.step (.contractSends s m))
        (({ n with ledger := l } : Node).step (.contractSends s m))
  /-- Somebody from outside shows the session a request. -/
  shown : n.AtRest → ses.phase = .ready → ∀ m job, m.job? = some job → job.kind ≠ .invoke →
    ∀ l, n.Follows l ses job (n.step (.handle s m))
      (({ n with ledger := l } : Node).step (.handle s m))
  /-- A worker takes up a request that has been waiting for one. -/
  worker : ∀ job pool, ses.pool.take = some (.job job, pool) → job.kind ≠ .invoke →
    ∀ l, ∃ n₁ n₂, n.work? s = some n₁ ∧ ({ n with ledger := l } : Node).work? s = some n₂ ∧
      n.Follows l ses job n₁ n₂
  /-- A read that has been waiting for its key goes on. -/
  resumed : ∀ n₁ l, n.resume? s = some n₁ → n.ledger.Alike l →
    (∀ p ∈ ses.parked, p.ref.key ∉ n.gates → n.ledger.Agrees l p.simulator.channel p.space) →
      ({ n with ledger := l } : Node).resume? s = some { n₁ with ledger := l } ∧
        n₁.ledger = n.ledger

theorem blind_resume? {n₁ : Node} (found : n.session? s = some ses) (took : n.resume? s = some n₁)
    (alike : n.ledger.Alike l)
    (agrees : ∀ p ∈ ses.parked, p.ref.key ∉ n.gates →
      n.ledger.Agrees l p.simulator.channel p.space) :
    ({ n with ledger := l } : Node).resume? s = some { n₁ with ledger := l } ∧
      n₁.ledger = n.ledger := by
  have found' : ({ n with ledger := l } : Node).session? s = some ses := found
  simp only [resume?, found] at took
  obtain ⟨p, first, rfl⟩ := Option.map_eq_some_iff.1 took
  have opened : p.ref.key ∉ n.gates := by simpa using List.find?_some first
  have same : ({ n with ledger := l } : Node).read p.simulator p.space p.ref =
      n.read p.simulator p.space p.ref := by
    unfold read
    rw [Ledger.get_agrees alike (agrees p (List.mem_of_find?_eq_some first) opened)]
  refine ⟨?_, rfl⟩
  simp only [resume?, found', first, Option.map_some]
  unfold resume
  rw [same]
  rfl

theorem confined (found : n.session? s = some ses) : n.Confined s ses where
  sent rest ready running m job sent asks other l :=
    follows found other fun _ related serves =>
      beside_step rest found ready running sent asks other related serves
  shown rest ready m job asks other l :=
    follows found other fun _ related serves =>
      beside_handle rest found ready asks other related serves
  worker job pool taken other l := by
    have found' : ({ n with ledger := l } : Node).session? s = some ses := found
    exact ⟨_, _, work?_of_job found taken, work?_of_job found' taken,
      follows found other fun _ _ serves => beside_conclude (serves pool)⟩
  resumed n₁ l took alike agrees := blind_resume? found took alike agrees

/-- What becomes of a request that is no call, at any point of any run, depends on the ledger only
through what it holds in the namespace of the contract, where the context of the transaction has
rights: on the channel of that context, unless a call that was run from outside came with rights on
another one. It does not depend on the ledger at all if the transaction has no context. -/
theorem confined_of_moves {P : Act → Prop} {channels historyless system : List String}
    {drill : Drill} (run : Moves P (withChannels channels historyless system drill) n)
    (found : n.session? s = some ses) :
    n.Confined s ses ∧ ((∀ a, P a → a.isLocal = true) → ∀ job l,
      (∀ c ctx name, ses.transactions.find? job.message.channel job.message.tx = some c →
        ses.transactions.context? c = some ctx → ses.space = .ok name →
          n.ledger.Agrees l ctx.channel name) → n.Shares l ses job) := by
  refine ⟨confined found, fun given job l agrees c ctx name registered known place => ?_⟩
  have every : n.Every Context.Local :=
    every_moves hereditary_local (every_withChannels channels historyless system drill) given run
  have own : ctx.Local := (every s ses found).found registered known
  refine ⟨fun sim right => ?_, fun h right => ?_⟩
  · rw [own.simulator sim right]
    exact agrees c ctx name registered known place
  · rw [own.historian h right]
    exact agrees c ctx name registered known place

/-- The contract of a transaction may look at its own namespace on the channel of the
transaction. -/
theorem confined_of_moves_storingRun : ∃ ses,
    let n := (withChannels ["ch"] [] [] {}).steps storingRun
    n.session? 0 = some ses ∧ n.Confined 0 ses ∧ ∀ l, n.ledger.Agrees l "ch" "cc" →
      n.Shares l ses ⟨.put, setting "ch" "t1" "k"⟩ := by
  have there : (((withChannels ["ch"] [] [] {}).steps storingRun).session? 0).any (fun ses =>
      ses.space.toOption == some "cc" &&
        ses.transactions.contexts.all (·.channel == "ch")) = true := by
    decide +kernel
  obtain ⟨ses, found, facts⟩ := (Option.any_eq_true ..).1 there
  obtain ⟨place, channels⟩ := Bool.and_eq_true_iff.1 facts
  have run : Moves (·.isLocal = true) (withChannels ["ch"] [] [] {})
      ((withChannels ["ch"] [] [] {}).steps storingRun) := moves_steps (by decide +kernel)
  obtain ⟨confined, shares⟩ := confined_of_moves run found
  refine ⟨ses, found, confined, fun l agrees => ?_⟩
  refine shares (fun _ => id) _ l fun c ctx name _ known here => ?_
  rw [here] at place
  have own : ctx.channel = "ch" :=
    beq_iff_eq.1 (List.all_eq_true.1 channels ctx (List.mem_of_getElem? known))
  rw [own, show name = "cc" from Option.some.inj (beq_iff_eq.1 place)]
  exact agrees

def getting (channel tx key : String) : Message :=
  { kind := .getState, channel, tx, payload := KeyRef.getCodec.encode { key } }

/-- A request reads where the simulator of its context is for, which need not be the channel of the
context: a value there makes a difference. -/
theorem reads_stray :
    let n := (withChannels ["a", "b"] [] [] {}).steps strayRun
    let n' := n.act (.seed "b" "t0" "cc" none [("k", [1])])
    let m := getting "a" "t1" "k"
    n' = { n with ledger := n'.ledger } ∧ n.ledger.Alike n'.ledger ∧
      n.ledger.Agrees n'.ledger "a" "cc" ∧
      ((n.session? 0).bind fun ses => (ses.transactions.get? "a" "t1").map (·.channel)) = some "a" ∧
      ((n.step (.contractSends 0 m)).session? 0).map (·.link.outbox.queue.getLast?) =
        some (some { kind := .response, channel := "a", tx := "t1" }) ∧
      ((n'.step (.contractSends 0 m)).session? 0).map (·.link.outbox.queue.getLast?) =
        some (some { kind := .response, channel := "a", tx := "t1", payload := [1] }) := by
  intro n n' m
  have there : n.ledger.hasChannel "b" = true := by decide +kernel
  have written : n'.ledger = n.ledger.updateSpace "b" "cc" (·.write "t0" none "k" [1]) := by
    decide +kernel
  refine ⟨by rfl, fun channel => ?_, ?_, by decide +kernel, by decide +kernel, by decide +kernel⟩
  · rw [written, Ledger.hasChannel_updateSpace]
    by_cases same : "b" = channel
    · rw [← same, there]
      rfl
    · simp [same]
  · unfold Ledger.Agrees
    rw [written, Ledger.space_updateSpace, if_neg (by decide)]
    exact .refl _

end Node

end ContractNode
