import ContractNode.Proofs.Paging
import ContractNode.Proofs.Selecting

/-!
# What scans of the ledger find

* `Source.Gives` : reading a source to its end gives some results;
* `Ledger.Lists` : some entries are those of a namespace, or of one of its collections, whose keys
  are picked, in the order of their keys, with the values that a look at each key finds;
* `range_lists` : a range lists the keys from the first one on that are before the last one;
* `query_lists` : a query lists the keys that go on from it.
-/

namespace ContractNode

/-- Reading a source to its end gives some results. -/
def Source.Gives {σ : Type} [Source σ] (s : σ) (rs : List Found) : Prop :=
  ∃ s', Source.Yields s rs s' ∧ (Source.next s').1 = .ok none

theorem Scan.gives (rs : List Found) : Source.Gives (Scan.ofResults rs) rs := by
  have pending : (Scan.ofResults rs).pending = (rs ++ []).map .ok := by
    rw [List.append_nil]
    rfl
  obtain ⟨s', yields, isOpen, nothing⟩ := Scan.yields rfl pending
  exact ⟨s', yields, Scan.ends isOpen nothing⟩

/-- A text begins with another one if it goes on from it. -/
theorem Text.startsWith_iff_append (s q : String) :
    startsWith s q = true ↔ ∃ rest, s = q ++ rest := by
  rw [startsWith_iff]
  constructor
  · rintro ⟨rest, joined⟩
    refine ⟨String.ofList rest, String.toList_injective ?_⟩
    rw [String.toList_append, String.toList_ofList, joined]
  · rintro ⟨rest, rfl⟩
    exact ⟨rest.toList, (String.toList_append ..).symm⟩

namespace Ledger

variable {l : Ledger} {sim : Simulator} {name : String}

/-- Some entries are all those of a namespace, in its public state or in a collection, whose keys
are picked. They stand in ascending order of their keys, each with the value that is read there. -/
structure Lists (l : Ledger) (sim : Simulator) (name : String) (collection : Option String)
    (picks : String → Prop) (es : List Entry) : Prop where
  mem_iff : ∀ e, e ∈ es ↔ e.space = name ∧ picks e.key ∧
    l.get sim name collection e.key = .ok (some e.value)
  ascending : es.Pairwise fun e e' => Text.Before e.key e'.key

/-- What a request selects is listed. -/
theorem lists_selected (there : l.hasChannel sim.channel = true) (name : String) (sel : Selection)
    {picks : String → Prop} (picked : ∀ k, sel.picks k = true ↔ picks k) :
    l.Lists sim name sel.collection picks (l.selected sim.channel name sel) where
  mem_iff e := by
    have read : l.get sim name sel.collection e.key = .ok (some e.value) ↔
        (l.space sim.channel name).read sel.collection e.key = some e.value := by
      simp only [get, onChannel, if_pos there, Except.ok.injEq]
    rw [mem_selected_iff, picked, read]
  ascending := ascending_selected ..

/-- The keys and values of what is selected are the entries of the map that are picked. -/
theorem selected_entries (l : Ledger) (channel name : String) (sel : Selection) :
    (l.selected channel name sel).map (fun e => (e.key, e.value)) =
      ((l.space channel name).entries sel.collection).entries.filter fun e => sel.picks e.1 := by
  rw [selected, List.map_map]
  exact List.map_id _

/-- Nothing is listed between a first key and a last one that is not after it. -/
theorem Lists.eq_nil {collection : Option String} {picks : String → Prop} {es : List Entry}
    (lists : l.Lists sim name collection picks es) (none : ∀ k, ¬ picks k) : es = [] :=
  List.eq_nil_iff_forall_not_mem.2 fun e mem => none e.key ((lists.mem_iff e).1 mem).2.1

/-- Whatever its two keys are, the search of a range succeeds, and it lists the entries whose keys
are not before the first one and, unless the last one is empty, before the last one. There are none
where the last one is not after the first one. -/
theorem range_lists (there : l.hasChannel sim.channel = true) (name : String)
    (collection : Option String) (first last : String) :
    ∃ es : List Entry,
      ((l.space sim.channel name).entries collection).range? first last =
        some (es.map fun e => (e.key, e.value)) ∧
      l.range sim name collection first last = .ok (es.map .entry) ∧
      Source.Gives (Scan.ofResults (es.map .entry)) (es.map .entry) ∧
      l.Lists sim name collection
        (fun k => ¬ Text.Before k first ∧ (last = "" ∨ Text.Before k last)) es ∧
      (last ≠ "" → ¬ Text.Before first last → es = []) := by
  obtain ⟨sel, selects, rfl, picked⟩ : ∃ sel : Selection,
      (Request.range ⟨first, last, collection⟩).selection? = some sel ∧ sel.collection = collection ∧
        ∀ k, sel.picks k = decide (¬ Text.Before k first ∧ (last = "" ∨ Text.Before k last)) :=
    ⟨_, rfl, rfl, fun _ => rfl⟩
  have lists := lists_selected there name sel fun k => by rw [picked, decide_eq_true_iff]
  refine ⟨_, ?_, range_eq_selected selects there name, Scan.gives _, lists, fun bounded down => ?_⟩
  · simp only [KeyMap.range?_eq_filter, selected_entries, picked]
  · refine lists.eq_nil fun k between => down ?_
    exact Text.before_of_not_before between.1 (between.2.resolve_left bounded)

/-- A ledger with keys of one and of several bytes. -/
def accents : Ledger :=
  (({} : Ledger).createChannel "ch").updateSpace "ch" "cc" fun s =>
    ["é", "f", "éa", "e", "è"].foldl (fun s key => s.write "t1" none key [1]) s

/-- A letter with an accent comes after all without, and before what goes on from it. -/
theorem range_lists_accents : accents.hasChannel "ch" = true ∧
    ∃ es : List Entry, accents.range ⟨"ch", "t2"⟩ "cc" none "f" "éa" = .ok (es.map .entry) ∧
      accents.Lists ⟨"ch", "t2"⟩ "cc" none
        (fun k => ¬ Text.Before k "f" ∧ ("éa" = "" ∨ Text.Before k "éa")) es ∧
      es.map Entry.key = ["f", "è", "é"] := by
  have there : accents.hasChannel (Simulator.mk "ch" "t2").channel = true := by decide +kernel
  obtain ⟨es, searched, found, _, lists, _⟩ := range_lists there "cc" none "f" "éa"
  have keys : (((accents.space "ch" "cc").entries none).range? "f" "éa").map (·.map Prod.fst) =
      some ["f", "è", "é"] := by decide +kernel
  rw [searched, Option.map_some, List.map_map] at keys
  exact ⟨there, es, found, lists, Option.some.inj keys⟩

/-- A query lists the entries whose keys begin with it, however far apart they are from what else
there is: the scan that stops at the first key which does not begin with it finds what a look at
every key would. -/
theorem query_lists (there : l.hasChannel sim.channel = true) (name : String)
    (collection : Option String) (q : String) :
    ∃ es : List Entry,
      ((l.space sim.channel name).entries collection).beginningWith q =
        (es.map fun e => (e.key, e.value)) ∧
      l.query sim name collection q = .ok (es.map .entry) ∧
      Source.Gives (Scan.ofResults (es.map .entry)) (es.map .entry) ∧
      l.Lists sim name collection (fun k => ∃ rest, k = q ++ rest) es := by
  obtain ⟨sel, selects, rfl, picked⟩ : ∃ sel : Selection,
      (Request.query ⟨q, collection⟩).selection? = some sel ∧ sel.collection = collection ∧
        ∀ k, sel.picks k = Text.startsWith k q :=
    ⟨_, rfl, rfl, fun _ => rfl⟩
  have lists := lists_selected there name sel fun k => by rw [picked, Text.startsWith_iff_append]
  refine ⟨_, ?_, query_eq_selected selects there name, Scan.gives _, lists⟩
  simp only [KeyMap.beginningWith_eq_filter, selected_entries, picked]

/-- A key that is the query itself is listed, one that differs in its last byte is not. -/
theorem query_lists_accents : accents.hasChannel "ch" = true ∧
    ∃ es : List Entry, accents.query ⟨"ch", "t2"⟩ "cc" none "é" = .ok (es.map .entry) ∧
      accents.Lists ⟨"ch", "t2"⟩ "cc" none (fun k => ∃ rest, k = "é" ++ rest) es ∧
      es.map Entry.key = ["é", "éa"] := by
  have there : accents.hasChannel (Simulator.mk "ch" "t2").channel = true := by decide +kernel
  obtain ⟨es, scanned, found, _, lists⟩ := query_lists there "cc" none "é"
  have keys : (((accents.space "ch" "cc").entries none).beginningWith "é").map Prod.fst =
      ["é", "éa"] := by decide +kernel
  rw [scanned, List.map_map] at keys
  exact ⟨there, es, found, lists, keys⟩

end Ledger

end ContractNode
