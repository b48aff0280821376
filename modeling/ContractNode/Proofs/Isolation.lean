import ContractNode.Proofs.Handling

/-!
# What a request reads

A request that is no call reads and writes the namespace of its contract on the channel that its
context has rights on, and nothing else of the ledger.

* `Space.Same`, `Ledger.Agrees` : two namespaces hold the same, two ledgers do so at some place;
* `Ledger.Abreast` : two ledgers that have changed have the same channels still, and agree wherever
  they agreed before;
* `Node.Sees` : the contents agree wherever the context of a request has rights;
* `abreast_perform`, `abreast_serve` : a request that is served on two such ledgers gets the same
  answer and leaves the same node, but for ledgers that are abreast.
-/

namespace ContractNode

/-! ## Namespaces -/

/-- Two namespaces hold the same: the same values, public and private, and the same history. -/
structure Space.Same (a b : Space) : Prop where
  entries : ∀ collection, a.entries collection = b.entries collection
  changes : ∀ key, a.changes key = b.changes key

namespace Space.Same

variable {a b : Space}

theorem refl (a : Space) : a.Same a := ⟨fun _ => rfl, fun _ => rfl⟩

theorem write (h : a.Same b) (tx : String) (collection : Option String) (key : String) (v : Bytes) :
    (a.write tx collection key v).Same (b.write tx collection key v) where
  entries c := by rw [entries_write, entries_write, h.entries, h.entries]
  changes k := by rw [changes_write, changes_write, h.changes]

theorem delete (h : a.Same b) (tx : String) (collection : Option String) (key : String) :
    (a.delete tx collection key).Same (b.delete tx collection key) where
  entries c := by rw [entries_delete, entries_delete, h.entries, h.entries]
  changes k := by rw [changes_delete, changes_delete, h.changes]

end Space.Same

/-! ## Ledgers -/

namespace Ledger

/-- Two ledgers hold the same in a namespace on a channel. -/
def Agrees (l l' : Ledger) (channel name : String) : Prop :=
  (l.space channel name).Same (l'.space channel name)

def Alike (l l' : Ledger) : Prop := ∀ channel, l'.hasChannel channel = l.hasChannel channel

/-- What has become of two ledgers with the same channels: these are the same still, and wherever
the ledgers agreed they agree again. -/
structure Abreast (l l' l₁ l₂ : Ledger) : Prop where
  alike : l₁.Alike l₂
  agrees : ∀ channel name, l.Agrees l' channel name → l₁.Agrees l₂ channel name

variable {l l' : Ledger} {sim : Simulator} {name : String}

theorem Abreast.refl (alike : l.Alike l') : Abreast l l' l l' := ⟨alike, fun _ _ agrees => agrees⟩

theorem abreast_updateSpace (alike : l.Alike l') (channel name : String) {f : Space → Space}
    (same : ∀ a b : Space, a.Same b → (f a).Same (f b)) :
    Abreast l l' (l.updateSpace channel name f) (l'.updateSpace channel name f) where
  alike c := by rw [hasChannel_updateSpace, hasChannel_updateSpace, alike]
  agrees c k agrees := by
    unfold Agrees
    rw [space_updateSpace, space_updateSpace]
    split
    · rename_i here
      obtain ⟨rfl, rfl⟩ := here
      exact same _ _ agrees
    · exact agrees

theorem onChannel_alike {α : Type} (alike : l.Alike l') (channel : String) (x : α) :
    l'.onChannel channel x = l.onChannel channel x := by
  unfold onChannel
  rw [alike]

theorem get_agrees (alike : l.Alike l') (agrees : l.Agrees l' sim.channel name)
    (collection : Option String) (key : String) :
    l'.get sim name collection key = l.get sim name collection key := by
  unfold get Space.read
  rw [onChannel_alike alike, agrees.entries]

theorem range_agrees (alike : l.Alike l') (agrees : l.Agrees l' sim.channel name)
    (collection : Option String) (first last : String) :
    l'.range sim name collection first last = l.range sim name collection first last := by
  unfold range
  rw [onChannel_alike alike, agrees.entries]

theorem query_agrees (alike : l.Alike l') (agrees : l.Agrees l' sim.channel name)
    (collection : Option String) (q : String) :
    l'.query sim name collection q = l.query sim name collection q := by
  unfold query
  rw [onChannel_alike alike, agrees.entries]

theorem history_agrees {h : Historian} (alike : l.Alike l') (agrees : l.Agrees l' h.channel name)
    (key : String) : l'.history h name key = l.history h name key := by
  unfold history
  rw [onChannel_alike alike, agrees.changes]

/-- Two ledgers are asked for a change: neither makes it, for the same reason, or both do and stay
abreast. -/
inductive Changes (l l' : Ledger) : Except LedgerError Ledger → Except LedgerError Ledger → Prop
  | refused (e : LedgerError) : Changes l l' (.error e) (.error e)
  | changed {l₁ l₂ : Ledger} (abreast : Abreast l l' l₁ l₂) : Changes l l' (.ok l₁) (.ok l₂)

theorem changes_onChannel (alike : l.Alike l') (channel : String) {l₁ l₂ : Ledger}
    (abreast : Abreast l l' l₁ l₂) :
    Changes l l' (l.onChannel channel l₁) (l'.onChannel channel l₂) := by
  unfold onChannel
  rw [alike]
  split
  · exact .changed abreast
  · exact .refused _

theorem changes_set (alike : l.Alike l') (sim : Simulator) (name : String)
    (collection : Option String) (key : String) (v : Bytes) :
    Changes l l' (l.set sim name collection key v) (l'.set sim name collection key v) := by
  unfold set
  split
  · exact .refused _
  · exact changes_onChannel alike _
      (abreast_updateSpace alike _ _ fun _ _ same => same.write sim.tx collection key v)

theorem changes_delete (alike : l.Alike l') (sim : Simulator) (name : String)
    (collection : Option String) (key : String) :
    Changes l l' (l.delete sim name collection key) (l'.delete sim name collection key) :=
  changes_onChannel alike _
    (abreast_updateSpace alike _ _ fun _ _ same => same.delete sim.tx collection key)

theorem Changes.guard {r r' : Except LedgerError Ledger} (h : Changes l l' r r') (d : Drill)
    (action key : String) : Changes l l' (d.guard action key r) (d.guard action key r') := by
  unfold Drill.guard
  split
  · exact .refused _
  · exact h

end Ledger

/-! ## Requests -/

namespace Node

/-- What a node and another one come to that differ in their ledgers only: the same, but for ledgers
that are abreast. -/
def Abreast {α : Type} (n : Node) (l : Ledger) (r r' : α × Node) : Prop :=
  ∃ l', r' = (r.1, { r.2 with ledger := l' }) ∧ Ledger.Abreast n.ledger l r.2.ledger l'

variable {n : Node} {s : SessionId} {ses : Session} {l : Ledger} {job : Job}

/-- What leaves the ledger alone, and does not look at it. -/
theorem Abreast.blind {α : Type} (alike : n.ledger.Alike l) {r r' : α × Node}
    (same : r' = (r.1, { r.2 with ledger := l })) (kept : r.2.ledger = n.ledger) :
    Abreast n l r r' :=
  ⟨l, same, by rw [kept]; exact .refl alike⟩

/-- Two ledgers agree in a namespace, wherever a context has rights. -/
structure Sees (n : Node) (l : Ledger) (ctx : Context) (name : String) : Prop where
  simulator : ∀ sim, ctx.simulator = some sim → n.ledger.Agrees l sim.channel name
  historian : ∀ h, ctx.historian = some h → n.ledger.Agrees l h.channel name

theorem abreast_commit {r r' : Except LedgerError Ledger}
    (changes : Ledger.Changes n.ledger l r r') (alike : n.ledger.Alike l) :
    Abreast n l (n.commit r) ({ n with ledger := l }.commit r') := by
  cases changes with
  | refused e => exact .blind alike rfl rfl
  | changed abreast => exact ⟨_, rfl, abreast⟩

theorem abreast_openCursor (alike : n.ledger.Alike l) (c max : Nat) (ctx : Context)
    (r : Except LedgerError Scan) :
    Abreast n l (n.openCursor s c max ctx r) ({ n with ledger := l }.openCursor s c max ctx r) := by
  cases r with
  | error e => exact .blind alike rfl rfl
  | ok scan => exact .blind alike rfl rfl

theorem abreast_withRight {ctx : Context} {f f' : Simulator → String → Outcome × Node}
    (alike : n.ledger.Alike l)
    (h : ∀ sim name, ctx.simulator = some sim → ses.space = .ok name →
      Abreast n l (f sim name) (f' sim name)) :
    Abreast n l (n.withRight ses ctx f) ({ n with ledger := l }.withRight ses ctx f') := by
  unfold withRight rightOf
  cases right : ctx.simulator with
  | none => exact .blind alike rfl rfl
  | some sim =>
    cases place : ses.space with
    | error e => exact .blind alike rfl rfl
    | ok name => exact h sim name right place

theorem abreast_withHistory {ctx : Context} {f f' : Historian → String → Outcome × Node}
    (alike : n.ledger.Alike l)
    (h : ∀ hist name, ctx.historian = some hist → ses.space = .ok name →
      Abreast n l (f hist name) (f' hist name)) :
    Abreast n l (n.withHistory ses ctx f) ({ n with ledger := l }.withHistory ses ctx f') := by
  unfold withHistory
  cases right : ctx.historian with
  | none => exact .blind alike rfl rfl
  | some hist =>
    cases place : ses.space with
    | error e => exact .blind alike rfl rfl
    | ok name => exact h hist name right place

/-- Carrying a request out looks at the places that its context has rights on. -/
theorem abreast_perform {r : Request} (alike : n.ledger.Alike l) (c : Nat) {ctx : Context}
    (sees : ∀ name, ses.space = .ok name → n.Sees l ctx name)
    (other : ∀ spec, r ≠ .invoke spec) :
    Abreast n l (n.perform s ses c ctx job r)
      ({ n with ledger := l }.perform s ses c ctx job r) := by
  cases r with
  | get r =>
    refine abreast_withRight alike fun sim name right place => ?_
    have agrees := (sees name place).simulator sim right
    have same : ({ n with ledger := l } : Node).read sim name r = n.read sim name r := by
      unfold read
      rw [Ledger.get_agrees alike agrees]
    have held : ({ n with ledger := l } : Node).holds r.key = n.holds r.key := rfl
    rw [same, held]
    split
    · exact .blind alike rfl rfl
    · exact .blind alike rfl rfl
  | put w =>
    refine abreast_withRight alike fun sim name right place => ?_
    exact abreast_commit ((Ledger.changes_set alike sim name _ _ _).guard _ _ _) alike
  | delete r =>
    refine abreast_withRight alike fun sim name right place => ?_
    exact abreast_commit ((Ledger.changes_delete alike sim name _ _).guard _ _ _) alike
  | range r =>
    refine abreast_withRight alike fun sim name right place => ?_
    have agrees := (sees name place).simulator sim right
    have same : ({ n with ledger := l } : Node).scanRange sim name r = n.scanRange sim name r := by
      unfold scanRange
      simp only [Ledger.range_agrees alike agrees]
    rw [same]
    exact abreast_openCursor alike ..
  | query q =>
    refine abreast_withRight alike fun sim name right place => ?_
    have agrees := (sees name place).simulator sim right
    have same : ({ n with ledger := l } : Node).scanQuery sim name q = n.scanQuery sim name q := by
      unfold scanQuery
      simp only [Ledger.query_agrees alike agrees]
    rw [same]
    exact abreast_openCursor alike ..
  | history r =>
    refine abreast_withHistory alike fun hist name right place => ?_
    have agrees := (sees name place).historian hist right
    have same : ({ n with ledger := l } : Node).scanHistory hist name r =
        n.scanHistory hist name r := by
      unfold scanHistory
      rw [Ledger.history_agrees alike agrees]
    rw [same]
    exact abreast_openCursor alike ..
  | next r => exact .blind alike rfl rfl
  | close r => exact .blind alike rfl rfl
  | invoke spec => exact absurd rfl (other spec)

theorem abreast_attempt (alike : n.ledger.Alike l) (other : job.kind ≠ .invoke)
    (sees : ∀ c ctx name, ses.transactions.find? job.message.channel job.message.tx = some c →
      ses.transactions.context? c = some ctx → ses.space = .ok name → n.Sees l ctx name) :
    Abreast n l (n.attempt s ses job) ({ n with ledger := l }.attempt s ses job) := by
  unfold attempt
  cases decoded : Request.decode job.kind job.message.payload with
  | error e => exact .blind alike rfl rfl
  | ok r =>
    simp only
    cases registered : ses.transactions.find? job.message.channel job.message.tx with
    | none => exact .blind alike rfl rfl
    | some c =>
      simp only
      cases known : ses.transactions.context? c with
      | none => exact .blind alike rfl rfl
      | some ctx =>
        refine abreast_perform alike c (sees c ctx · registered known) fun spec same => other ?_
        rw [← Request.kind_of_decode decoded, same]
        rfl

/-- Serving a request that is no call looks at the places that its context has rights on. -/
theorem abreast_serve (alike : n.ledger.Alike l) (found : n.session? s = some ses)
    (other : job.kind ≠ .invoke)
    (sees : ∀ c ctx name, ses.transactions.find? job.message.channel job.message.tx = some c →
      ses.transactions.context? c = some ctx → ses.space = .ok name → n.Sees l ctx name) :
    Abreast n l (n.serve s job) ({ n with ledger := l }.serve s job) := by
  have found' : ({ n with ledger := l } : Node).session? s = some ses := found
  by_cases held : job.message.key ∈ ses.transactions.markers
  · rw [serve_held found held, serve_held found' held]
    exact .blind alike rfl rfl
  · rw [serve_free found held, serve_free found' held]
    -- Claiming the marker leaves the ledger, the contexts and the place of the contract alone.
    have claimed : Abreast (n.modify s (·.claim job.message.key)) l
        ((n.modify s (·.claim job.message.key)).attempt s (ses.claim job.message.key) job) _ :=
      abreast_attempt (n := n.modify s (·.claim job.message.key)) alike other
        fun c ctx name registered known place =>
          ⟨(sees c ctx name registered known place).simulator,
            (sees c ctx name registered known place).historian⟩
    obtain ⟨l', tried, abreast⟩ := claimed
    change (({ n with ledger := l } : Node).modify s (·.claim job.message.key)).attempt s
      (ses.claim job.message.key) job = _ at tried
    rw [tried]
    generalize (n.modify s (·.claim job.message.key)).attempt s (ses.claim job.message.key) job = r
      at abreast
    obtain ⟨outcome, n'⟩ := r
    refine ⟨l', ?_, ?_⟩
    · cases outcome <;> rfl
    · cases outcome <;> exact abreast

/-- Without a context there is nothing to look at. -/
theorem serve_of_unknown (found : n.session? s = some ses)
    (unknown : ses.transactions.find? job.message.channel job.message.tx = none) :
    { n with ledger := l }.serve s job =
      ((n.serve s job).1, { (n.serve s job).2 with ledger := l }) := by
  have found' : ({ n with ledger := l } : Node).session? s = some ses := found
  by_cases held : job.message.key ∈ ses.transactions.markers
  · rw [serve_held found held, serve_held found' held]
  · have absent : (ses.claim job.message.key).transactions.find? job.message.channel
        job.message.tx = none := unknown
    rw [serve_free found held, serve_free found' held]
    unfold attempt
    cases Request.decode job.kind job.message.payload with
    | error e => rfl
    | ok r =>
      simp only [absent]
      rfl

end Node

end ContractNode
