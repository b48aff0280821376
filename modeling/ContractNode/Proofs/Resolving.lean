import ContractNode.Proofs.Listed
import ContractNode.Proofs.Naming

/-!
# What a target resolves to

The directory looks a target without a version up by the text that the keys of its versions begin
with. No name that was taken out of a composite name has a colon, so the first colon of a key ends
the name, and a search by that text finds the versions of the name and nothing else.

* `Directory.Decomposed` : every key is that of a composite name;
* `Directory.Serves` : a session is registered under a name and a version;
* `Directory.Resolves` : what a target should resolve to, in terms of names and versions;
* `Directory.resolveAlong` : the search along a table in any order;
* `resolve_eq_iff` : what a target resolves to, for all directories and targets.
-/

namespace ContractNode

namespace Directory

/-! ## What is registered -/

/-- Every key is that of a composite name. -/
def Decomposed (d : Directory) : Prop :=
  ∀ key s, d.get? key = some s → ∃ composite, (ContractInstance.ofName composite).key = key

/-- A session is registered under a name and a version, as a composite name gives them. -/
def Serves (d : Directory) (name version : String) (s : SessionId) : Prop :=
  ∃ composite, (ContractInstance.ofName composite).name = name ∧
    (ContractInstance.ofName composite).version = version ∧
    d.get? (ContractInstance.ofName composite).key = some s

/-- What a target should resolve to. -/
inductive Resolves (d : Directory) (target : ContractInstance) : Except LaunchError SessionId → Prop
  /-- A session is registered under the name and the version of the target, also where it has none. -/
  | exact {s : SessionId} (serves : d.Serves target.name target.version s) : d.Resolves target (.ok s)
  /-- The target has no version, and its name is registered under one version only. -/
  | only {version : String} {s : SessionId} (plain : target.version = "")
      (bare : ∀ t, ¬ d.Serves target.name "" t) (serves : d.Serves target.name version s)
      (others : ∀ version' t, d.Serves target.name version' t → version' = version ∧ t = s) :
      d.Resolves target (.ok s)
  /-- The target has no version, and its name is registered under several. -/
  | ambiguous {version version' : String} {s s' : SessionId} (plain : target.version = "")
      (bare : ∀ t, ¬ d.Serves target.name "" t) (serves : d.Serves target.name version s)
      (serves' : d.Serves target.name version' s') (different : version ≠ version') :
      d.Resolves target
        (.error (.launchFailed ("several versions of contract " ++ target.name ++ " are running")))
  /-- Nothing is registered that would do. -/
  | missing (unserved : ∀ t, ¬ d.Serves target.name target.version t)
      (versions : target.version = "" → ∀ version t, ¬ d.Serves target.name version t) :
      d.Resolves target (.error (.launchFailed ("contract " ++ target.key ++ " is not running")))

variable {d : Directory} {target : ContractInstance} {name version : String} {s t : SessionId}

/-- A session is registered under a name and a version if and only if it is under their key. -/
theorem serves_iff (decomposed : d.Decomposed) {i : ContractInstance}
    (plain : ':' ∉ i.name.toList) : d.Serves i.name i.version s ↔ d.get? i.key = some s := by
  constructor
  · rintro ⟨composite, named, versioned, entry⟩
    have same := (ContractInstance.key_eq_iff (ContractInstance.not_mem_name_ofName composite) plain).2
      ⟨named, versioned⟩
    rwa [same] at entry
  · intro entry
    obtain ⟨composite, key⟩ := decomposed _ _ entry
    obtain ⟨named, versioned⟩ :=
      (ContractInstance.key_eq_iff (ContractInstance.not_mem_name_ofName composite) plain).1 key
    exact ⟨composite, named, versioned, key.symm ▸ entry⟩

theorem Serves.unique (h : d.Serves name version s) (h' : d.Serves name version t) : s = t := by
  obtain ⟨composite, named, versioned, entry⟩ := h
  obtain ⟨composite', named', versioned', entry'⟩ := h'
  have same := (ContractInstance.key_eq_iff (ContractInstance.not_mem_name_ofName composite)
    (ContractInstance.not_mem_name_ofName composite')).2
      ⟨named.trans named'.symm, versioned.trans versioned'.symm⟩
  rw [same, entry'] at entry
  exact (Option.some.inj entry).symm

theorem Resolves.unique {r r' : Except LaunchError SessionId} (h : d.Resolves target r)
    (h' : d.Resolves target r') : r = r' := by
  cases h with
  | exact serves =>
    cases h' with
    | exact serves' => rw [serves.unique serves']
    | only plain bare => exact absurd (plain ▸ serves) (bare _)
    | ambiguous plain bare => exact absurd (plain ▸ serves) (bare _)
    | missing unserved => exact absurd serves (unserved _)
  | only plain bare serves others =>
    cases h' with
    | exact serves' => exact absurd (plain ▸ serves') (bare _)
    | only _ _ serves' => rw [(others _ _ serves').2]
    | ambiguous _ _ first second different =>
      exact absurd ((others _ _ first).1.trans (others _ _ second).1.symm) different
    | missing _ versions => exact absurd serves (versions plain _ _)
  | ambiguous plain bare first second different =>
    cases h' with
    | exact serves' => exact absurd (plain ▸ serves') (bare _)
    | only _ _ _ others =>
      exact absurd ((others _ _ first).1.trans (others _ _ second).1.symm) different
    | ambiguous => rfl
    | missing _ versions => exact absurd first (versions plain _ _)
  | missing unserved versions =>
    cases h' with
    | exact serves' => exact absurd serves' (unserved _)
    | only plain _ serves' => exact absurd serves' (versions plain _ _)
    | ambiguous plain _ serves' => exact absurd serves' (versions plain _ _)
    | missing => rfl

/-! ## The search -/

def candidates (d : Directory) (name : String) : List (String × SessionId) :=
  d.sessions.entries.filter fun e => Text.startsWith e.1 (name ++ ":")

theorem versions_eq (d : Directory) (name : String) :
    d.versions name = (d.candidates name).map Prod.snd := rfl

/-- The candidates for a name are the sessions registered under one of its versions. -/
theorem mem_candidates_iff (decomposed : d.Decomposed) (plain : ':' ∉ name.toList) {key : String} :
    (key, s) ∈ d.candidates name ↔ ∃ version, version ≠ "" ∧ d.Serves name version s ∧
      key = (ContractInstance.mk name version "").key := by
  rw [candidates, List.mem_filter, KeyMap.mem_entries_iff]
  constructor
  · rintro ⟨entry, begins⟩
    obtain ⟨composite, rfl⟩ := decomposed _ _ entry
    have named := ContractInstance.not_mem_name_ofName composite
    obtain ⟨rfl, versioned⟩ := (ContractInstance.startsWith_key_iff named plain).1 begins
    exact ⟨_, versioned, ⟨composite, rfl, rfl, entry⟩, rfl⟩
  · rintro ⟨version, versioned, serves, rfl⟩
    exact ⟨(serves_iff decomposed (i := ⟨name, version, ""⟩) plain).1 serves,
      (ContractInstance.startsWith_key_iff (i := ⟨name, version, ""⟩) plain plain).2 ⟨rfl, versioned⟩⟩

/-- Candidates follow one another in the order of their keys. -/
theorem ascending_candidates (d : Directory) (name : String) : Ascending (d.candidates name) :=
  d.sessions.ascending.filter _

/-- Where nothing is registered under the bare name, the candidates say what a target without a
version resolves to. -/
theorem resolves_candidates (decomposed : d.Decomposed) (named : ':' ∉ target.name.toList)
    (plain : target.version = "") (bare : ∀ t, ¬ d.Serves target.name "" t) :
    d.Resolves target
      (match (d.candidates target.name).map Prod.snd with
      | [s] => .ok s
      | [] => .error (.launchFailed ("contract " ++ target.key ++ " is not running"))
      | _ :: _ :: _ =>
        .error (.launchFailed ("several versions of contract " ++ target.name ++ " are running"))) := by
  have candidate {key : String} {s : SessionId} : (key, s) ∈ d.candidates target.name ↔ _ :=
    mem_candidates_iff decomposed named
  have versioned {version : String} {t : SessionId} (serves : d.Serves target.name version t) :
      ((ContractInstance.mk target.name version "").key, t) ∈ d.candidates target.name :=
    candidate.2 ⟨version, fun unversioned => bare t (unversioned ▸ serves), serves, rfl⟩
  have ascending := d.ascending_candidates target.name
  cases found : d.candidates target.name with
  | nil =>
    have unserved (version : String) (t : SessionId) : ¬ d.Serves target.name version t :=
      fun serves => List.not_mem_nil (found ▸ versioned serves)
    exact .missing (unserved _) fun _ => unserved
  | cons first rest =>
    obtain ⟨key, s⟩ := first
    obtain ⟨version, _, serves, rfl⟩ := candidate.1 (found ▸ List.mem_cons_self)
    cases rest with
    | nil =>
      refine .only plain bare serves fun version' t serves' => ?_
      have mem := versioned serves'
      rw [found, List.mem_singleton] at mem
      obtain ⟨keys, sessions⟩ := Prod.mk.inj mem
      have same := (ContractInstance.key_eq_iff (i := ⟨target.name, version', ""⟩)
        (j := ⟨target.name, version, ""⟩) named named).1 keys
      exact ⟨same.2, sessions⟩
    | cons second rest =>
      obtain ⟨key', s'⟩ := second
      obtain ⟨version', _, serves', rfl⟩ :=
        candidate.1 (found ▸ List.mem_cons_of_mem _ List.mem_cons_self)
      refine .ambiguous plain bare serves serves' fun same => ?_
      subst same
      rw [found] at ascending
      have before := (List.pairwise_cons.1 ascending).1 _ List.mem_cons_self
      exact Text.Before.irrefl _ before

/-- A target resolves to what it should. -/
theorem resolves_resolve (decomposed : d.Decomposed) (named : ':' ∉ target.name.toList) :
    d.Resolves target (d.resolve target) := by
  have under {s : SessionId} := serves_iff (s := s) decomposed named
  cases entry : d.get? target.key with
  | some s =>
    simp only [resolve, entry]
    exact .exact (under.2 entry)
  | none =>
    have unserved (t : SessionId) : ¬ d.Serves target.name target.version t := fun serves => by
      rw [under.1 serves] at entry
      cases entry
    by_cases plain : target.version = ""
    · simp only [resolve, entry, if_pos plain, versions_eq]
      exact resolves_candidates decomposed named plain (plain ▸ unserved)
    · simp only [resolve, entry, if_neg plain]
      exact .missing unserved fun bare => absurd bare plain

/-! ## The order of the table -/

/-- The search as it goes along a table: the key is looked up; else, for a target without a version,
the first two entries are taken whose keys begin with the name and a colon. -/
def resolveAlong (d : Directory) (table : List (String × SessionId)) (target : ContractInstance) :
    Except LaunchError SessionId :=
  match d.get? target.key with
  | some s => .ok s
  | none =>
    let versions := table.filter fun e => Text.startsWith e.1 (target.name ++ ":")
    match target.version == "", versions[0]?, versions[1]? with
    | true, some e, none => .ok e.2
    | true, some _, some _ =>
      .error (.launchFailed ("several versions of contract " ++ target.name ++ " are running"))
    | _, _, _ => .error (.launchFailed ("contract " ++ target.key ++ " is not running"))

/-- In which order the table is gone through makes no difference. -/
theorem resolveAlong_eq {table : List (String × SessionId)} (order : table.Perm d.sessions.entries)
    (target : ContractInstance) : d.resolveAlong table target = d.resolve target := by
  have along := order.filter fun e => Text.startsWith e.1 (target.name ++ ":")
  change (table.filter _).Perm (d.candidates target.name) at along
  rw [resolveAlong, resolve, versions_eq]
  generalize table.filter (fun e => Text.startsWith e.1 (target.name ++ ":")) = versions at along
  cases d.get? target.key with
  | some s => rfl
  | none =>
    by_cases plain : target.version = ""
    · simp only [plain, if_true, BEq.rfl]
      cases found : d.candidates target.name with
      | nil =>
        rw [found, List.perm_nil] at along
        subst along
        rfl
      | cons e rest =>
        cases rest with
        | nil =>
          rw [found, List.perm_singleton] at along
          subst along
          rfl
        | cons e' rest =>
          have lengths := along.length_eq
          rw [found] at lengths
          match versions, lengths with
          | _ :: _ :: _, _ => rfl
    · simp only [plain, if_false, beq_eq_false_iff_ne.2 plain]

/-! ## What resolving comes to -/

/-- A session that serves a target is registered under the name of the target. -/
theorem Resolves.serves (h : d.Resolves target (.ok s)) : ∃ version, d.Serves target.name version s := by
  cases h with
  | exact serves => exact ⟨_, serves⟩
  | only _ _ serves _ => exact ⟨_, serves⟩

/-- In a directory whose keys come from composite names, a target with such a name resolves to what
is registered under its name and version; or, without a version, under its bare name, else under the
only version of its name; else it is ambiguous or not running. Every session is of the contract by
that name, whatever composite names the sessions registered with; and the order in which the table
is gone through makes no difference. -/
theorem resolve_eq_iff (d : Directory) (decomposed : d.Decomposed) (target : ContractInstance)
    (named : ∃ composite, (ContractInstance.ofName composite).name = target.name) :
    (∀ r, d.resolve target = r ↔ d.Resolves target r) ∧
    (∀ composites : SessionId → String,
      (∀ key s, d.get? key = some s → (ContractInstance.ofName (composites s)).key = key) →
      ∀ s, d.resolve target = .ok s →
        (ContractInstance.ofName (composites s)).name = target.name) ∧
    ∀ table, table.Perm d.sessions.entries → d.resolveAlong table target = d.resolve target := by
  obtain ⟨composite, named⟩ := named
  have plain : ':' ∉ target.name.toList := named ▸ ContractInstance.not_mem_name_ofName composite
  have resolves := resolves_resolve decomposed plain
  refine ⟨fun r => ⟨fun same => same ▸ resolves, resolves.unique⟩, ?_, fun table order =>
    resolveAlong_eq order target⟩
  intro composites registered s resolved
  rw [resolved] at resolves
  obtain ⟨version, composite', named', _, entry⟩ := resolves.serves
  have keys := registered _ _ entry
  exact ((ContractInstance.key_eq_iff (ContractInstance.not_mem_name_ofName _)
    (ContractInstance.not_mem_name_ofName _)).1 keys).1.trans named'

/-- Two versions of a contract, and another contract whose name goes on where theirs ends. -/
def sideBySide : Directory :=
  { sessions := (((∅ : KeyMap SessionId).insert "dd:1" 0).insert "dd:2" 1).insert "dd-copy:1" 2 }

theorem resolve_eq_iff_sideBySide :
    sideBySide.Decomposed ∧
    (∃ composite, (ContractInstance.ofName composite).name = "dd") ∧
    sideBySide.Resolves ⟨"dd", "", ""⟩
      (.error (.launchFailed "several versions of contract dd are running")) ∧
    sideBySide.Resolves ⟨"dd", "2", ""⟩ (.ok 1) ∧
    sideBySide.Resolves ⟨"dd-copy", "", ""⟩ (.ok 2) := by
  have decomposed : sideBySide.Decomposed := by
    intro key s entry
    have entries : sideBySide.sessions.entries = [("dd-copy:1", 2), ("dd:1", 0), ("dd:2", 1)] := by
      decide +kernel
    have mem := KeyMap.mem_entries_iff.2 entry
    rw [entries] at mem
    refine ⟨key, ?_⟩
    rcases List.mem_cons.1 mem with same | mem
    · cases same
      decide +kernel
    · rcases List.mem_cons.1 mem with same | mem
      · cases same
        decide +kernel
      · cases List.mem_singleton.1 mem
        decide +kernel
  have named : ∃ composite, (ContractInstance.ofName composite).name = "dd" :=
    ⟨"dd:1/ch", by decide +kernel⟩
  have copy : ∃ composite, (ContractInstance.ofName composite).name = "dd-copy" :=
    ⟨"dd-copy", by decide +kernel⟩
  refine ⟨decomposed, named, ?_, ?_, ?_⟩
  · exact ((resolve_eq_iff sideBySide decomposed ⟨"dd", "", ""⟩ named).1 _).1 (by decide +kernel)
  · exact ((resolve_eq_iff sideBySide decomposed ⟨"dd", "2", ""⟩ named).1 _).1 (by decide +kernel)
  · exact ((resolve_eq_iff sideBySide decomposed ⟨"dd-copy", "", ""⟩ copy).1 _).1 (by decide +kernel)

end Directory

namespace Node

/-- The sessions of a node that registers them as they ask for it are registered under the keys of
composite names. -/
theorem decomposed_of_fair {n : Node} (fair : n.roll.Fair) : n.directory.Decomposed := by
  intro key s entry
  obtain ⟨id, same, _⟩ := (listed_iff fair key s).1 entry
  exact ⟨id.name, same⟩

end Node

end ContractNode
