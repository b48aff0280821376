import ContractNode.Transaction.Registry
import Mathlib.Data.Finmap
import Mathlib.Data.Set.Function

/-!
# Transactions as books

* `Errand`, `Order`, `Answer` : what is asked about transactions, and what comes of it;
* `log`, `after` : the answers to any number of orders, and what is left in the end;
* `Keyed` : an order reads and changes the entry under its own key only, so that orders under other
  keys make no difference (`Keyed.isolated`), and what has the same entries answers the same
  (`Keyed.simulates`);
* `Transactions.carry` : the transactions of a session carry an order out;
* `Books`, `Books.carry` : so do a finite map of contexts and a finite set of markers, which are
  kept under the keys that pairs of a channel and a transaction id are given;
* `log_transactions` : transactions are books that are kept under context keys, and as good as books
  that are kept under the pairs themselves while no two pairs in use have the same context key.
-/

namespace ContractNode

/-- Where the rights of a context come from. -/
inductive Grant
  /-- A ledger gives them. -/
  | ledger (l : Ledger)
  | rights (simulator : Option Simulator) (historian : Option Historian)

/-- The context of a transaction with rights that are granted. -/
def Grant.context (g : Grant) (channel tx : String) (signedProposal : Option SignedProposal)
    (proposal : Option Proposal) : Context :=
  match g with
  | .ledger l => Context.onLedger l channel tx signedProposal proposal
  | .rights simulator historian =>
    { channel, tx, simulator, historian, signedProposal, proposal }

theorem Grant.pair_context (g : Grant) (channel tx : String)
    (signedProposal : Option SignedProposal) (proposal : Option Proposal) :
    ((g.context channel tx signedProposal proposal).channel,
      (g.context channel tx signedProposal proposal).tx) = (channel, tx) := by
  cases g with
  | ledger l => rfl
  | rights simulator historian => rfl

inductive Errand
  | create (g : Grant) (signedProposal : Option SignedProposal) (proposal : Option Proposal)
  | get
  | delete
  | mark
  | unmark

/-- An errand about the transaction of a channel. -/
structure Order where
  channel : String
  tx : String
  errand : Errand

inductive Answer
  | context (c : Option Context)
  | claimed (b : Bool)
  | done

/-- What a channel and a transaction id are found under. -/
def pairKey (p : String × String) : String := contextKey p.1 p.2

namespace Order

def pair (o : Order) : String × String := (o.channel, o.tx)

end Order

/-! ## One entry -/

structure Noted where
  context : Option Context := none
  marked : Bool := false

namespace Noted

/-- Notes a context and shows it, unless there is one. -/
def enter (e : Noted) (c : Context) : Answer × Noted :=
  match e.context with
  | some _ => (.context none, e)
  | none => (.context (some c), { e with context := some c })

/-- What is noted about a transaction decides what comes of an order about it. -/
def carry (e : Noted) (o : Order) : Answer × Noted :=
  match o.errand with
  | .create g signedProposal proposal =>
    e.enter (g.context o.channel o.tx signedProposal proposal)
  | .get => (.context e.context, e)
  | .delete => (.done, { e with context := none })
  | .mark => (.claimed !e.marked, { e with marked := true })
  | .unmark => (.done, { e with marked := false })

/-- A context that is noted was noted before, or is that of an order. -/
theorem context_carry {e : Noted} {o : Order} {c : Context}
    (h : (e.carry o).2.context = some c) : e.context = some c ∨ (c.channel, c.tx) = o.pair := by
  unfold carry at h
  cases asked : o.errand with
  | create g signedProposal proposal =>
    rw [asked] at h
    simp only [enter] at h
    split at h
    · exact .inl h
    · cases h
      exact .inr (g.pair_context ..)
  | delete =>
    rw [asked] at h
    cases h
  | get | mark | unmark =>
    rw [asked] at h
    exact .inl h

end Noted

/-! ## Entries under keys -/

section Keyed

variable {σ σ' κ κ' : Type} [DecidableEq κ] [DecidableEq κ']

/-- What comes of orders that are carried out one after the other. -/
def log (carry : σ → Order → Answer × σ) (s : σ) : List Order → List (Order × Answer)
  | [] => []
  | o :: os => (o, (carry s o).1) :: log carry (carry s o).2 os

def after (carry : σ → Order → Answer × σ) (s : σ) (os : List Order) : σ :=
  os.foldl (fun s o => (carry s o).2) s

/-- Orders are carried out entry by entry, each on the one under the key of its pair. -/
structure Keyed (carry : σ → Order → Answer × σ) (key : String × String → κ)
    (entry : σ → κ → Noted) (Good : σ → Prop) : Prop where
  good : ∀ {s o}, Good s → Good (carry s o).2
  answer : ∀ {s o}, Good s → (carry s o).1 = ((entry s (key o.pair)).carry o).1
  entry : ∀ {s o} k, Good s → entry (carry s o).2 k =
    if key o.pair = k then ((entry s k).carry o).2 else entry s k

variable {carry : σ → Order → Answer × σ} {key : String × String → κ} {entry : σ → κ → Noted}
  {Good : σ → Prop} {carry' : σ' → Order → Answer × σ'} {key' : String × String → κ'}
  {entry' : σ' → κ' → Noted} {Good' : σ' → Prop}

theorem Keyed.good_after (h : Keyed carry key entry Good) {s : σ} (good : Good s)
    (os : List Order) :
    Good (after carry s os) := by
  induction os generalizing s with
  | nil => exact good
  | cons o os ih => exact ih (h.good good)

/-- Under keys that tell the same pairs apart, what comes of orders is the same. -/
theorem Keyed.simulates (h : Keyed carry key entry Good) (h' : Keyed carry' key' entry' Good')
    (ps : Set (String × String))
    (same : ∀ p ∈ ps, ∀ q ∈ ps, key p = key q ↔ key' p = key' q) {s : σ} {t : σ'} (good : Good s)
    (good' : Good' t) (alike : ∀ p ∈ ps, entry s (key p) = entry' t (key' p)) {os : List Order}
    (among : ∀ o ∈ os, o.pair ∈ ps) :
    log carry s os = log carry' t os ∧
      ∀ p ∈ ps, entry (after carry s os) (key p) = entry' (after carry' t os) (key' p) := by
  induction os generalizing s t with
  | nil => exact ⟨rfl, alike⟩
  | cons o os ih =>
    obtain ⟨first, rest⟩ := List.forall_mem_cons.1 among
    have next : ∀ p ∈ ps, entry (carry s o).2 (key p) = entry' (carry' t o).2 (key' p) := by
      intro p mem
      rw [h.entry _ good, h'.entry _ good', alike p mem]
      exact if_congr (same o.pair first p mem) rfl rfl
    obtain ⟨logged, left⟩ := ih (h.good good) (h'.good good') next rest
    refine ⟨?_, left⟩
    rw [log, log, logged, h.answer good, h'.answer good', alike o.pair first]

/-- Orders under other keys make no difference. -/
theorem Keyed.isolated (h : Keyed carry key entry Good) (k : κ) {s s' : σ} (good : Good s)
    (good' : Good s') (alike : entry s k = entry s' k) (os : List Order) :
    (log carry s os).filter (fun e => key e.1.pair = k) =
      log carry s' (os.filter fun o => key o.pair = k) := by
  induction os generalizing s s' with
  | nil => rfl
  | cons o os ih =>
    rw [log]
    by_cases mine : key o.pair = k
    · have next : entry (carry s o).2 k = entry (carry s' o).2 k := by
        rw [h.entry k good, h.entry k good', alike]
      rw [List.filter_cons_of_pos (by simpa using mine),
        List.filter_cons_of_pos (by simpa using mine), ih (h.good good) (h.good good') next, log,
        h.answer good, h.answer good', mine, alike]
    · have next : entry (carry s o).2 k = entry s' k := by
        rw [h.entry k good, if_neg mine, alike]
      rw [List.filter_cons_of_neg (by simpa using mine),
        List.filter_cons_of_neg (by simpa using mine), ih (h.good good) good' next]

/-- Every context is noted under its own key. -/
theorem Keyed.named (h : Keyed carry key entry Good) {s : σ} (good : Good s)
    (named : ∀ k c, (entry s k).context = some c → key (c.channel, c.tx) = k) (os : List Order) :
    ∀ k c, (entry (after carry s os) k).context = some c → key (c.channel, c.tx) = k := by
  induction os generalizing s with
  | nil => exact named
  | cons o os ih =>
    refine ih (h.good good) fun k c noted => ?_
    rw [h.entry k good] at noted
    split at noted
    · rename_i mine
      rcases Noted.context_carry noted with noted | new
      · exact named k c noted
      · rw [new]
        exact mine
    · exact named k c noted

end Keyed

/-! ## Transactions -/

namespace Transactions

/-- Registers a context and shows it, unless the transaction has one. -/
def enter (t : Transactions) (c : Context) : Answer × Transactions :=
  match t.create c with
  | none => (.context none, t)
  | some (_, t') => (.context (some c), t')

def carry (t : Transactions) (o : Order) : Answer × Transactions :=
  match o.errand with
  | .create g signedProposal proposal =>
    t.enter (g.context o.channel o.tx signedProposal proposal)
  | .get => (.context (t.get? o.channel o.tx), t)
  | .delete => (.done, t.delete o.channel o.tx)
  | .mark => (.claimed (t.mark o.channel o.tx).1, (t.mark o.channel o.tx).2)
  | .unmark => (.done, t.unmark o.channel o.tx)

end Transactions

/-! ## Books -/

/-- Contexts and markers, each under a key. -/
structure Books (κ : Type) where
  contexts : Finmap fun _ : κ => Context := ∅
  markers : Finset κ := ∅

namespace Books

variable {κ : Type} [DecidableEq κ]

/-- Enters a context under a key and shows it, unless there is one. -/
def enter (b : Books κ) (k : κ) (c : Context) : Answer × Books κ :=
  match b.contexts.lookup k with
  | some _ => (.context none, b)
  | none => (.context (some c), { b with contexts := b.contexts.insert k c })

def carry (key : String × String → κ) (b : Books κ) (o : Order) : Answer × Books κ :=
  match o.errand with
  | .create g signedProposal proposal =>
    b.enter (key o.pair) (g.context o.channel o.tx signedProposal proposal)
  | .get => (.context (b.contexts.lookup (key o.pair)), b)
  | .delete => (.done, { b with contexts := b.contexts.erase (key o.pair) })
  | .mark =>
    (.claimed (key o.pair ∉ b.markers), { b with markers := insert (key o.pair) b.markers })
  | .unmark => (.done, { b with markers := b.markers.erase (key o.pair) })

def entry (b : Books κ) (k : κ) : Noted where
  context := b.contexts.lookup k
  marked := k ∈ b.markers

theorem entry_insert (b : Books κ) (k j : κ) (c : Context) :
    entry { b with contexts := b.contexts.insert k c } j =
      if k = j then { b.entry j with context := some c } else b.entry j := by
  unfold entry
  split
  · rename_i same
    rw [← same, Finmap.lookup_insert]
  · rename_i other
    rw [Finmap.lookup_insert_of_ne _ (Ne.symm other)]

theorem entry_erase (b : Books κ) (k j : κ) :
    entry { b with contexts := b.contexts.erase k } j =
      if k = j then { b.entry j with context := none } else b.entry j := by
  unfold entry
  split
  · rename_i same
    rw [← same, Finmap.lookup_erase]
  · rename_i other
    rw [Finmap.lookup_erase_ne (Ne.symm other)]

theorem entry_mark (b : Books κ) (k j : κ) :
    entry { b with markers := insert k b.markers } j =
      if k = j then { b.entry j with marked := true } else b.entry j := by
  unfold entry
  split
  · rename_i same
    simp [same]
  · rename_i other
    simp [Ne.symm other]

theorem entry_unmark (b : Books κ) (k j : κ) :
    entry { b with markers := b.markers.erase k } j =
      if k = j then { b.entry j with marked := false } else b.entry j := by
  unfold entry
  split
  · rename_i same
    simp [same]
  · rename_i other
    simp [Ne.symm other]

theorem answer_enter (b : Books κ) (k : κ) (c : Context) :
    (b.enter k c).1 = ((b.entry k).enter c).1 := by
  unfold enter Noted.enter entry
  cases b.contexts.lookup k with
  | none => rfl
  | some c' => rfl

theorem entry_enter (b : Books κ) (k j : κ) (c : Context) :
    (b.enter k c).2.entry j = if k = j then ((b.entry j).enter c).2 else b.entry j := by
  unfold enter
  cases found : b.contexts.lookup k with
  | none =>
    refine (b.entry_insert ..).trans (ite_congr rfl (fun same => ?_) fun _ => rfl)
    subst same
    simp [Noted.enter, entry, found]
  | some c' =>
    show b.entry j = _
    split
    · rename_i same
      subst same
      simp [Noted.enter, entry, found]
    · rfl

theorem entry_empty (k : κ) : ({} : Books κ).entry k = {} := by
  simp [entry]

/-- Books are kept under the keys of pairs. -/
theorem keyed (key : String × String → κ) : Keyed (carry key) key entry fun _ => True where
  good _ := trivial
  answer {b o} _ := by
    unfold carry Noted.carry
    cases o.errand with
    | create g signedProposal proposal => exact b.answer_enter ..
    | get | delete | unmark => rfl
    | mark => simp [entry]
  entry {b o} k _ := by
    unfold carry Noted.carry
    cases o.errand with
    | create g signedProposal proposal => exact b.entry_enter ..
    | get => exact (ite_self _).symm
    | delete => exact b.entry_erase ..
    | mark => exact b.entry_mark ..
    | unmark => exact b.entry_unmark ..

end Books

namespace Transactions

/-- Every registered context has been made. -/
def Indexed (t : Transactions) : Prop := ∀ k c, t.index.get? k = some c → c < t.contexts.length

def entry (t : Transactions) (k : String) : Noted where
  context := (t.index.get? k).bind t.context?
  marked := k ∈ t.markers

theorem enter_of_taken {t : Transactions} {c : Context} {no : Nat}
    (taken : t.index.get? c.key = some no) : t.enter c = (.context none, t) := by
  simp [enter, create, KeyMap.contains, taken]

theorem enter_of_free {t : Transactions} {c : Context} (free : t.index.get? c.key = none) :
    t.enter c = (.context (some c), { t with
      contexts := t.contexts ++ [c], index := t.index.insert c.key t.contexts.length }) := by
  simp [enter, create, KeyMap.contains, free]

theorem context_entry {t : Transactions} (h : t.Indexed) {k : String} {no : Nat}
    (taken : t.index.get? k = some no) : ∃ c, (t.entry k).context = some c := by
  refine ⟨t.contexts.get ⟨no, h k no taken⟩, ?_⟩
  simp only [entry, taken, Option.bind_some]
  exact List.getElem?_eq_getElem _

theorem answer_enter {t : Transactions} (h : t.Indexed) (c : Context) :
    (t.enter c).1 = ((t.entry c.key).enter c).1 := by
  unfold Noted.enter
  cases found : t.index.get? c.key with
  | none =>
    rw [enter_of_free found]
    simp [entry, found]
  | some no =>
    obtain ⟨c', noted⟩ := context_entry h found
    rw [enter_of_taken found, noted]

theorem indexed_enter {t : Transactions} (h : t.Indexed) (c : Context) :
    (t.enter c).2.Indexed := by
  cases found : t.index.get? c.key with
  | none =>
    rw [enter_of_free found]
    intro k no registered
    rw [KeyMap.get?_insert] at registered
    rw [List.length_append, List.length_singleton]
    split at registered
    · cases registered
      exact Nat.lt_succ_self _
    · exact Nat.lt_succ_of_lt (h k no registered)
  | some no =>
    rw [enter_of_taken found]
    exact h

theorem entry_enter {t : Transactions} (h : t.Indexed) (c : Context) (j : String) :
    (t.enter c).2.entry j = if c.key = j then ((t.entry j).enter c).2 else t.entry j := by
  cases found : t.index.get? c.key with
  | none =>
    rw [enter_of_free found]
    unfold entry
    rw [KeyMap.get?_insert]
    split
    · rename_i same
      subst same
      simp [Noted.enter, found, context?]
    · cases registered : t.index.get? j with
      | none => rfl
      | some no =>
        simp only [Option.bind_some, context?, List.getElem?_append_left (h j no registered)]
  | some no =>
    rw [enter_of_taken found]
    split
    · rename_i same
      subst same
      obtain ⟨c', noted⟩ := context_entry h found
      simp [Noted.enter, noted]
    · rfl

theorem entry_delete (t : Transactions) (channel tx j : String) :
    (t.delete channel tx).entry j =
      if contextKey channel tx = j then { t.entry j with context := none } else t.entry j := by
  unfold entry delete
  rw [KeyMap.get?_erase]
  split
  · rfl
  · rfl

theorem answer_mark (t : Transactions) (channel tx : String) :
    (t.mark channel tx).1 = !(t.entry (contextKey channel tx)).marked := by
  unfold mark
  by_cases claimed : contextKey channel tx ∈ t.markers
  · simp [entry, claimed]
  · simp [entry, claimed]

theorem entry_markers (t : Transactions) (markers : List String) (j : String) :
    entry { t with markers } j = { t.entry j with marked := j ∈ markers } := rfl

theorem entry_mark (t : Transactions) (channel tx j : String) :
    (t.mark channel tx).2.entry j =
      if contextKey channel tx = j then { t.entry j with marked := true } else t.entry j := by
  unfold mark
  by_cases claimed : contextKey channel tx ∈ t.markers
  · rw [if_pos (by simpa using claimed)]
    split
    · rename_i same
      subst same
      simp [entry, claimed]
    · rfl
  · rw [if_neg (by simpa using claimed), entry_markers]
    split
    · rename_i same
      simp [same]
    · rename_i other
      simp [entry, Ne.symm other]

theorem entry_unmark (t : Transactions) (channel tx j : String) :
    (t.unmark channel tx).entry j =
      if contextKey channel tx = j then { t.entry j with marked := false } else t.entry j := by
  unfold unmark
  rw [entry_markers]
  split
  · rename_i same
    simp [same]
  · rename_i other
    simp [entry, Ne.symm other]

theorem indexed_mark {t : Transactions} (h : t.Indexed) (channel tx : String) :
    (t.mark channel tx).2.Indexed := by
  unfold mark
  split
  · exact h
  · exact h

theorem indexed_delete {t : Transactions} (h : t.Indexed) (channel tx : String) :
    (t.delete channel tx).Indexed := by
  intro k no registered
  refine h k no ?_
  unfold delete at registered
  rw [KeyMap.get?_erase] at registered
  split at registered
  · cases registered
  · exact registered

/-- Transactions are kept under context keys. -/
theorem keyed : Keyed carry pairKey entry Indexed where
  good {t o} good := by
    unfold carry
    cases o.errand with
    | create g signedProposal proposal => exact indexed_enter good _
    | get | unmark => exact good
    | delete => exact indexed_delete good _ _
    | mark => exact indexed_mark good _ _
  answer {t o} good := by
    unfold carry Noted.carry
    cases o.errand with
    | create g signedProposal proposal =>
      have key : (g.context o.channel o.tx signedProposal proposal).key = pairKey o.pair := by
        cases g <;> rfl
      exact key ▸ answer_enter good _
    | get | delete | unmark => rfl
    | mark => exact congrArg Answer.claimed (t.answer_mark ..)
  entry {t o} k good := by
    unfold carry Noted.carry
    cases o.errand with
    | create g signedProposal proposal =>
      have key : (g.context o.channel o.tx signedProposal proposal).key = pairKey o.pair := by
        cases g <;> rfl
      exact key ▸ entry_enter good _ k
    | get => exact (ite_self _).symm
    | delete => exact t.entry_delete ..
    | mark => exact t.entry_mark ..
    | unmark => exact t.entry_unmark ..

theorem indexed_empty : ({} : Transactions).Indexed := by
  intro k c registered
  cases registered

theorem entry_empty (k : String) : ({} : Transactions).entry k = {} := rfl

/-- A transaction is refused a context when it has one already. -/
theorem carry_create_eq_none_iff {t : Transactions} (h : t.Indexed) (channel tx : String) (g : Grant)
    (signedProposal : Option SignedProposal) (proposal : Option Proposal) :
    (t.carry ⟨channel, tx, .create g signedProposal proposal⟩).1 = .context none ↔
      ∃ c, t.get? channel tx = some c := by
  rw [keyed.answer h]
  show (Noted.enter (t.entry (contextKey channel tx)) _).1 = _ ↔ ∃ c, (t.entry _).context = some c
  unfold Noted.enter
  cases (t.entry (contextKey channel tx)).context with
  | none => simp
  | some c => simp

end Transactions

/-- What comes of orders about transactions is what comes of them for books that are kept under
context keys: an order is blind to those under other keys, a context is refused exactly when there
is one under its key, and what is got has the key that was asked for.

While no two pairs in use share a context key, the pairs themselves are as good as keys. -/
theorem log_transactions (os : List Order) :
    let t := after Transactions.carry {} os
    log Transactions.carry {} os = log (Books.carry pairKey) {} os ∧
      (∀ k, (log Transactions.carry {} os).filter (fun e => pairKey e.1.pair = k) =
        log Transactions.carry {} (os.filter fun o => pairKey o.pair = k)) ∧
      (∀ channel tx g signedProposal proposal,
        (t.carry ⟨channel, tx, .create g signedProposal proposal⟩).1 = .context none ↔
          ∃ c, t.get? channel tx = some c) ∧
      (∀ channel tx c, t.get? channel tx = some c →
        contextKey c.channel c.tx = contextKey channel tx) ∧
      (Set.InjOn pairKey {p | ∃ o ∈ os, o.pair = p} →
        log Transactions.carry {} os = log (Books.carry id) {} os ∧
          (∀ p, (log Transactions.carry {} os).filter (fun e => e.1.pair = p) =
            log Transactions.carry {} (os.filter fun o => o.pair = p)) ∧
          ∀ o ∈ os, ∀ c, t.get? o.channel o.tx = some c → c.channel = o.channel ∧ c.tx = o.tx) := by
  intro t
  have indexed : t.Indexed := Transactions.keyed.good_after Transactions.indexed_empty os
  have blank {κ : Type} [DecidableEq κ] (k : String) (k' : κ) :
      ({} : Transactions).entry k = ({} : Books κ).entry k' := by
    rw [Transactions.entry_empty, Books.entry_empty]
  refine ⟨?_, fun k => ?_, Transactions.carry_create_eq_none_iff indexed, fun channel tx c got => ?_,
    fun apart => ?_⟩
  · exact (Transactions.keyed.simulates (Books.keyed pairKey) Set.univ (fun _ _ _ _ => Iff.rfl)
      Transactions.indexed_empty trivial (fun _ _ => blank _ _) fun _ _ => Set.mem_univ _).1
  · exact Transactions.keyed.isolated k Transactions.indexed_empty Transactions.indexed_empty rfl os
  · exact Transactions.keyed.named Transactions.indexed_empty
      (fun k c noted => by rw [Transactions.entry_empty] at noted; cases noted) os _ c got
  · have used {o : Order} (mem : o ∈ os) : o.pair ∈ {p | ∃ o ∈ os, o.pair = p} := ⟨o, mem, rfl⟩
    have simulates (os' : List Order) (among : ∀ o ∈ os', o ∈ os) :=
      Transactions.keyed.simulates (Books.keyed id) {p | ∃ o ∈ os, o.pair = p}
        (fun p mem q mem' => apart.eq_iff mem mem') Transactions.indexed_empty trivial
        (fun _ _ => blank _ _) fun o mem => used (among o mem)
    have whole := simulates os fun _ mem => mem
    refine ⟨whole.1, fun p => ?_, fun o mem c got => ?_⟩
    · have some := simulates (os.filter fun o => o.pair = p) fun o mem =>
        (List.mem_filter.1 mem).1
      rw [whole.1, some.1]
      exact (Books.keyed id).isolated p trivial trivial rfl os
    · have same := whole.2 o.pair (used mem)
      have noted : ((after (Books.carry id) {} os).entry (id o.pair)).context = .some c := by
        rw [← same]
        exact got
      have named := (Books.keyed id).named trivial
        (fun k c noted => by rw [Books.entry_empty] at noted; cases noted) os _ c noted
      exact Prod.ext_iff.1 named

/-- A context is asked for under the same context key twice, but not for the same pair. -/
def collision : List Order :=
  [⟨"ab", "c", .create (.rights none none) none none⟩,
    ⟨"a", "bc", .create (.rights none none) none none⟩]

def Answer.isRefused : Answer → Bool
  | .context none => true
  | _ => false

/-- Pairs are not as good as keys where two of them share a context key: the second of them is
refused a context. -/
theorem log_collision :
    log Transactions.carry {} collision ≠ log (Books.carry id) {} collision := by
  intro same
  have refused : (log Transactions.carry {} collision).map (·.2.isRefused) = [false, true] := by
    decide +kernel
  have given : (log (Books.carry id) {} collision).map (·.2.isRefused) = [false, false] := by
    decide +kernel
  rw [same, given] at refused
  cases refused

theorem log_transactions_mark :
    let os : List Order := [⟨"ch", "t1", .mark⟩, ⟨"ch", "t2", .mark⟩, ⟨"ch", "t1", .mark⟩]
    log Transactions.carry {} os = log (Books.carry id) {} os := by
  intro os
  have told : ∀ p ∈ os.map Order.pair, ∀ q ∈ os.map Order.pair, pairKey p = pairKey q → p = q := by
    decide +kernel
  have apart : Set.InjOn pairKey {p | ∃ o ∈ os, o.pair = p} := by
    rintro _ ⟨o, mem, rfl⟩ _ ⟨o', mem', rfl⟩ same
    exact told _ (List.mem_map_of_mem mem) _ (List.mem_map_of_mem mem') same
  exact ((log_transactions os).2.2.2.2 apart).1

end ContractNode
