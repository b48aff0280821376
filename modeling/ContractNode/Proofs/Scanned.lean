import ContractNode.Proofs.Decoding
import ContractNode.Proofs.Selecting
import ContractNode.Proofs.Sparing
import ContractNode.Proofs.Stored
import ContractNode.Proofs.Aftermath

/-!
# Scans

A contract opens a scan of the entries of its namespace and asks for one page after the other.

* `Sheet`, `Scanned` : pages of entries, and entries that are read page by page;
* `Turn`, `Node.Reading` : requests for the pages of a cursor, with anything else in between;
* `Node.Answers` : the contract is sent the answer to a request;
* `scanned_of_moves` : the contract reads the entries that the ledger held when the scan was opened.
-/

namespace ContractNode

/-! ## Pages of entries -/

/-- A page of a scan: the entries on it, and whether there are more. -/
structure Sheet where
  entries : List Entry
  hasMore : Bool

namespace Sheet

def page (id : String) (p : Sheet) : Page := ⟨id, p.hasMore, p.entries.map Entry.codec.encode⟩

def payload (id : String) (p : Sheet) : Bytes := Page.codec.encode (p.page id)

/-- What the contract makes of a payload: it is the page, and these are the entries on it. -/
structure Decodes (id : String) (p : Sheet) : Prop where
  page : Page.codec.decode (p.payload id) = .ok (p.page id)
  entries : (p.page id).results.map Entry.codec.decode = p.entries.map .ok

theorem decodes {id : String} {p : Sheet} (small : (p.payload id).length < wireLimit) :
    p.Decodes id := by
  refine ⟨Page.decode_encode small, ?_⟩
  show (p.entries.map Entry.codec.encode).map Entry.codec.decode = _
  rw [List.map_map]
  refine List.map_congr_left fun e mem => ?_
  have short := Page.length_of_mem (p := p.page id) (List.mem_map_of_mem mem)
  exact Entry.decode_encode (Nat.lt_of_le_of_lt short small)

end Sheet

/-- Entries that are read page by page. All but some are on a page, each page tells whether there
are more, and no page is empty while there are. -/
structure Scanned (entries : List Entry) (sheets : List Sheet) (todo : List Entry) : Prop where
  whole : sheets.flatMap (·.entries) ++ todo = entries
  more : ∀ before p after, sheets = before ++ p :: after →
    (p.hasMore = true ↔ after ≠ [] ∨ todo ≠ [])
  filled : ∀ p ∈ sheets, p.hasMore = true → p.entries ≠ []

namespace Scanned

variable {entries todo todo' : List Entry} {sheets : List Sheet} {p : Sheet}

theorem start (entries : List Entry) : Scanned entries [] entries :=
  ⟨rfl, fun _ _ _ nothing => by simp at nothing, fun _ mem => absurd mem List.not_mem_nil⟩

theorem read (h : Scanned entries sheets todo) (goesOn : sheets ≠ [] → todo ≠ [])
    (split : p.entries ++ todo' = todo) (more : p.hasMore = true ↔ todo' ≠ [])
    (filled : p.hasMore = true → p.entries ≠ []) : Scanned entries (sheets ++ [p]) todo' := by
  refine ⟨?_, fun before q after same => ?_, fun q mem => ?_⟩
  · rw [List.flatMap_append, List.flatMap_singleton, List.append_assoc, split, h.whole]
  · rcases List.eq_nil_or_concat after with rfl | ⟨after, last, rfl⟩
    · obtain ⟨rfl, rfl⟩ := List.append_inj' same rfl |>.imp id List.singleton_inj.1
      simpa using more
    · rw [List.concat_eq_append, ← List.cons_append, ← List.append_assoc] at same
      obtain ⟨rfl, -⟩ := List.append_inj' same rfl
      have some : todo ≠ [] := goesOn (by simp)
      simp [h.more before q after rfl, some]
  · rcases List.mem_append.1 mem with mem | mem
    · exact h.filled q mem
    · cases List.mem_singleton.1 mem
      exact filled

/-- Once a page tells that there are no more, the pages hold all the entries. -/
theorem complete (h : Scanned entries (sheets ++ [p]) todo) (last : p.hasMore = false) :
    (sheets ++ [p]).flatMap (·.entries) = entries := by
  have none : todo = [] := by
    have more := h.more sheets p [] rfl
    rw [last] at more
    simpa using more
  rw [← h.whole, none, List.append_nil]

/-- While there are more entries, every page that was read holds one. -/
theorem length_lt (h : Scanned entries sheets todo) (some : todo ≠ []) :
    sheets.length < entries.length := by
  have filled (p : Sheet) (mem : p ∈ sheets) : p.entries ≠ [] := by
    obtain ⟨before, after, same⟩ := List.append_of_mem mem
    exact h.filled p mem ((h.more before p after same).2 (.inr some))
  have pages : sheets.length ≤ (sheets.flatMap (·.entries)).length := by
    clear h
    induction sheets with
    | nil => exact Nat.le_refl 0
    | cons p sheets ih =>
      have first := List.length_pos_iff.2 (filled p List.mem_cons_self)
      have others := ih fun q mem => filled q (List.mem_cons_of_mem p mem)
      rw [List.flatMap_cons, List.length_append, List.length_cons]
      omega
  have left := List.length_pos_iff.2 some
  rw [← h.whole, List.length_append]
  omega

end Scanned

/-! ## Cursors over entries -/

/-- What is left to read from a cursor: some entries, or none, and then the cursor is gone. -/
inductive CursorTable.Left (t : CursorTable Scan) (id : String) : List Entry → Prop
  | past (gone : t.cursors.get? id = none) : Left t id []
  | some {todo : List Entry} {ahead rest : List Found} (holds : t.Holds id ahead rest)
      (begun : ahead ≠ []) (split : todo.map Found.entry = ahead ++ rest) (more : todo ≠ []) :
      Left t id todo

namespace CursorTable

variable {t t' : CursorTable Scan} {id : String} {todo : List Entry}

theorem Left.keeps (h : t.Left id todo) (keeps : t.Keeps id t') : t'.Left id todo := by
  cases h with
  | past gone => exact .past (keeps.cursor.trans gone)
  | some holds begun split more => exact .some (keeps.holds holds) begun split more

/-- The next page holds some of what is left, and tells whether that is all. -/
theorem left_of_advance {max : Nat} {ahead rest : List Found}
    {a : Except CursorError Page × CursorTable Scan} (advance : Advance max id ahead rest a)
    (least : ahead ≠ [] ∨ 0 < max) (split : todo.map Found.entry = ahead ++ rest) :
    ∃ (p : Sheet) (todo' : List Entry), a.1 = .ok (p.page id) ∧ a.2.Left id todo' ∧
      p.entries ++ todo' = todo ∧ (p.hasMore = true ↔ todo' ≠ []) ∧
      (p.hasMore = true → p.entries ≠ []) := by
  have encoded (es : List Entry) :
      (es.map Found.entry).map Found.encode = es.map Entry.codec.encode := by
    rw [List.map_map]
    rfl
  cases advance with
  | ends gone =>
    refine ⟨⟨todo, false⟩, [], ?_, .past gone, List.append_nil _, by simp⟩
    rw [← split, encoded]
    rfl
  | @goesOn t taken after r split' length holds =>
    rw [split', ← List.append_assoc] at split
    obtain ⟨part, left, rfl, read, unread⟩ := List.map_eq_append_iff.1 split
    have more : left ≠ [] := by
      rintro rfl
      cases unread
    have filled : part ≠ [] := by
      rintro rfl
      obtain ⟨rfl, rfl⟩ := List.append_eq_nil_iff.1 read.symm
      rcases least with begun | least
      · exact begun rfl
      · exact absurd (length.trans (Nat.sub_zero max)) (Nat.ne_of_lt least)
    refine ⟨⟨part, true⟩, left, ?_, .some holds (List.cons_ne_nil _ _) unread more, rfl,
      by simpa using more, fun _ => filled⟩
    rw [← read, encoded]
    rfl

end CursorTable

namespace Node

variable {P : Act → Prop} {s : SessionId} {ses : Session} {c : Nat} {id : String} {ctx : Context}
  {job : Job} {r : Request} {n n' : Node}

/-! ## Requests for pages -/

/-- The contract of a session is sent the answer to a request, if anything can be sent to it, and
nothing else. -/
def Answers (s : SessionId) (job : Job) (result : Except SessionError Bytes) (n n' : Node) : Prop :=
  ∃ ses ses', n.session? s = some ses ∧ n'.session? s = some ses' ∧
    ses'.link = ((ses.link.send (reply job.message result)).toOption).getD ses.link

def pageResult : Except CursorError Page → Except SessionError Bytes
  | .error e => .error (.cursor e)
  | .ok page => .ok (Page.codec.encode page)

theorem link_sendAnyway (ses : Session) (m : Message) :
    (ses.sendAnyway m).link = ((ses.link.send m).toOption).getD ses.link := by
  unfold Session.sendAnyway Session.send
  cases ses.link.send m <;> rfl

/-- The cursors of a context are replaced, and so many cursors have been opened so far. -/
def turned (n : Node) (s : SessionId) (c : Nat) (t : CursorTable Scan) (k : Nat) : Node :=
  { n.modifyCursors s c t with cursorCount := k }

theorem turned_claim (n : Node) (s : SessionId) (key : String) (c : Nat) (t : CursorTable Scan)
    (k : Nat) :
    (n.modify s (·.claim key)).turned s c t k = (n.turned s c t k).modify s (·.claim key) := by
  unfold turned
  rw [modifyCursors_claim]
  rfl

/-- Carrying a request out comes to a page, or a failure to read one. -/
def Pages (n : Node) (s : SessionId) (ses : Session) (c : Nat) (ctx : Context) (job : Job)
    (r : Request) (a : Except CursorError Page × CursorTable Scan) (k : Nat) : Prop :=
  n.perform s ses c ctx job r = (paged a.1, n.turned s c a.2 k)

section Pages

variable {a : Except CursorError Page × CursorTable Scan} {k : Nat}

theorem serve_of_pages (found : n.session? s = some ses) (lands : n.Lands s c job r)
    (known : ses.transactions.context? c = some ctx)
    (pages : (n.modify s (·.claim job.message.key)).Pages s (ses.claim job.message.key) c ctx job r
      a k) :
    n.serve s job = (none, (n.turned s c a.2 k).modify s
      (·.reply job.kind (reply job.message (pageResult a.1)))) := by
  obtain ⟨read, ses', found', free, registered⟩ := lands
  cases Option.some.inj (found.symm.trans found')
  have registered' : (ses.claim job.message.key).transactions.find? job.message.channel
      job.message.tx = some c := registered
  have known' : (ses.claim job.message.key).transactions.context? c = some ctx := known
  have tried : (n.modify s (·.claim job.message.key)).attempt s (ses.claim job.message.key) job =
      (paged a.1, (n.modify s (·.claim job.message.key)).turned s c a.2 k) := by
    simp only [attempt, read, registered', known']
    exact pages
  rw [serve_free found free, tried, turned_claim]
  refine congrArg (Prod.mk none) (answer_claimed (fun ms held => ?_) (pageResult a.1))
  have same : (n.turned s c a.2 k).markers s = n.markers s :=
    (inside_modifyCursors n s c a.2).markers s
  rw [same, markers, found] at held
  cases held
  exact free

/-- What a request for a page comes to: the answer, and what the cursors of the context are then. -/
structure Yields (s : SessionId) (c : Nat) (job : Job)
    (a : Except CursorError Page × CursorTable Scan) (k : Nat) (n n' : Node) : Prop where
  answers : Answers s job (pageResult a.1) n n'
  cursors : ∃ ctx, n'.context? s c = some ctx ∧ ctx.cursors = a.2
  count : n'.cursorCount = k

theorem yields_of_takes (takes : Takes s c job r n n') (found : n.session? s = some ses)
    (known : ses.transactions.context? c = some ctx) (direct : r.kind.route = .direct)
    (pages : ∀ pool,
      ((n.modify s fun ses => { ses with pool }).modify s (·.claim job.message.key)).Pages s
        (Session.claim job.message.key { ses with pool }) c ctx job r a k) :
    Yields s c job a k n n' := by
  obtain ⟨took, lands, ses', pool, found', taken⟩ := takes
  cases Option.some.inj (found.symm.trans found')
  have route : job.kind.route = .direct := by rw [← Request.kind_of_decode lands.read, direct]
  have found₁ := session?_modify (f := fun ses => { ses with pool }) found
  have lands' : (n.modify s fun ses => { ses with pool }).Lands s c job r := by
    obtain ⟨read, ses', there, free, registered⟩ := lands
    cases Option.some.inj (found.symm.trans there)
    exact ⟨read, _, found₁, free, registered⟩
  have served := serve_of_pages found₁ lands' known (pages pool)
  rw [work?_of_job found taken, served] at took
  cases Option.some.inj took
  have found₂ : ((n.modify s fun ses => { ses with pool }).turned s c a.2 k).session? s = some
      { ses with
        pool
        transactions := ses.transactions.modify c fun ctx => { ctx with cursors := a.2 } } :=
    session?_modify found₁
  generalize replied : reply job.message (pageResult a.1) = m
  have found₃ := session?_modify (f := fun ses => { ses with pool := ses.pool.finish job })
    (session?_modify (f := (·.reply job.kind m)) found₂)
  refine ⟨⟨ses, _, found, found₃, ?_⟩, ⟨{ ctx with cursors := a.2 },
    context?_eq_some_iff.2 ⟨_, found₃, ?_⟩, rfl⟩, rfl⟩
  · show (Session.reply job.kind m _).link = _
    unfold Session.reply
    rw [route, replied]
    exact link_sendAnyway ..
  · show (Session.reply job.kind m _).transactions.context? c = _
    rw [(Session.talks_reply _ job.kind m).transactions, Transactions.context?_modify, if_pos rfl,
      known]
    rfl

theorem yields_next {q : CursorRef} (takes : Takes s c job (.next q) n n')
    (found : n.session? s = some ses) (known : ses.transactions.context? c = some ctx) :
    Yields s c job (ctx.cursors.advance ses.config.maxBatch q.id) n.cursorCount n n' :=
  yields_of_takes takes found known rfl fun _ => rfl

theorem count_next {q : CursorRef} (sound : n.Sound) (takes : Takes s c job (.next q) n n') :
    n'.cursorCount = n.cursorCount := by
  obtain ⟨ses, found, _, registered⟩ := takes.lands.about
  obtain ⟨ctx, known, _⟩ := (sound.transactions s ses found).indexed _ c registered
  exact (yields_next takes found known).count

theorem openCursor_of_right {f : Simulator → String → Except LedgerError Scan} {sim : Simulator}
    {name : String} {scan : Scan} (right : ctx.simulator = some sim) (place : ses.space = .ok name)
    (finds : f sim name = .ok scan) (max : Nat) :
    (n.withRight ses ctx fun sim name => n.openCursor s c max ctx (f sim name)) =
      (paged (ctx.cursors.openCursor max (cursorId n.cursorCount) scan).1,
        n.turned s c (ctx.cursors.openCursor max (cursorId n.cursorCount) scan).2
          (n.cursorCount + 1)) := by
  simp only [withRight, rightOf, right, place, finds]
  rfl

/-- Opening a scan, where the ledger can be read. -/
theorem yields_open {sel : Selection} {sim : Simulator} {name : String}
    (takes : Takes s c job r n n')
    (selects : r.selection? = some sel) (found : n.session? s = some ses)
    (known : ses.transactions.context? c = some ctx) (right : ctx.simulator = some sim)
    (place : ses.space = .ok name) (there : n.ledger.hasChannel sim.channel = true)
    (ordinary : n.drill.Leaves sel.start) :
    Yields s c job (ctx.cursors.openCursor ses.config.maxBatch (cursorId n.cursorCount)
      (Scan.ofResults ((n.ledger.selected sim.channel name sel).map .entry)))
        (n.cursorCount + 1) n n' := by
  cases r with
  | range q =>
    cases selects
    refine yields_of_takes takes found known rfl fun pool => ?_
    refine openCursor_of_right (f := fun sim name => Node.scanRange _ sim name q) right place ?_ _
    exact Drill.cursor_of_leaves ordinary _ (Ledger.range_eq_selected rfl there name)
  | query q =>
    cases selects
    refine yields_of_takes takes found known rfl fun pool => ?_
    refine openCursor_of_right (f := fun sim name => Node.scanQuery _ sim name q) right place ?_ _
    exact Drill.cursor_of_leaves ordinary _ (Ledger.query_eq_selected rfl there name)
  | _ => cases selects

end Pages

/-! ## Identifiers -/

theorem mod_pow_of_digits {a b : Nat} (d : Nat)
    (same : ∀ j < d, a / Nat.pow 16 j % 16 = b / Nat.pow 16 j % 16) :
    a % Nat.pow 16 d = b % Nat.pow 16 d := by
  induction d with
  | zero => simp [Nat.mod_one]
  | succ d ih =>
    have low := ih fun j less => same j (Nat.lt_succ_of_lt less)
    have high := same d (Nat.lt_succ_self d)
    rw [show Nat.pow 16 (d + 1) = Nat.pow 16 d * 16 from rfl, Nat.mod_mul, Nat.mod_mul, low, high]

theorem digitChar_injective : ∀ a < 16, ∀ b < 16, Nat.digitChar a = Nat.digitChar b → a = b := by
  decide

/-- Cursors have identifiers of their own, as far as twelve places go. -/
theorem cursorId_injective {a b : Nat} (small : a < Nat.pow 16 12) (small' : b < Nat.pow 16 12)
    (same : cursorId a = cursorId b) : a = b := by
  have places : cursorPlaces a = cursorPlaces b := by
    unfold cursorId at same
    generalize cursorPlaces a = as, cursorPlaces b = bs at same ⊢
    generalize "5ca1ab1e-0c5e-4000-8000-" = front at same
    have texts := congrArg String.toList same
    simp only [String.toList_append, String.toList_ofList] at texts
    exact List.append_cancel_left texts
  have digits (j : Nat) (less : j < 12) :
      a / Nat.pow 16 j % 16 = b / Nat.pow 16 j % 16 := by
    have here := congrArg (·[11 - j]?) places
    have back : 11 - (11 - j) = j := by omega
    simp only [cursorPlaces, List.getElem?_map, List.getElem?_range (show 11 - j < 12 by omega),
      Option.map_some, Option.some.injEq, back] at here
    exact digitChar_injective _ (Nat.mod_lt _ (by decide)) _ (Nat.mod_lt _ (by decide)) here
  have whole := mod_pow_of_digits 12 digits
  rwa [Nat.mod_eq_of_lt small, Nat.mod_eq_of_lt small'] at whole

/-! ## Reading a scan -/

/-- A worker takes up a request: the node before and after. -/
structure Turn where
  before : Node
  job : Job
  after : Node

/-- The turns in which pages of a cursor are asked for. Anything else may happen in between, as long
as the cursor is not closed, its context stays registered, and whoever waits for the transaction is
told nothing. -/
inductive Reading (P : Act → Prop) (s : SessionId) (c : Nat) (id : String) :
    Node → List Turn → Node → Prop
  | start (n : Node) : Reading P s c id n [] n
  | next {n n₁ n₂ : Node} {ts : List Turn} {job : Job} {q : CursorRef}
      (reading : Reading P s c id n ts n₁) (takes : Takes s c job (.next q) n₁ n₂)
      (named : q.id = id) : Reading P s c id n (ts ++ [⟨n₁, job, n₂⟩]) n₂
  | other {n n₁ n₂ : Node} {ts : List Turn} (reading : Reading P s c id n ts n₁)
      (move : Move P n₁ n₂) (unread : ∀ job r, Takes s c job r n₁ n₂ → r.cursor? ≠ some id)
      (untold : ¬ Tells s c n₁ n₂) (kept : n₂.Registers s c) : Reading P s c id n ts n₂

/-- The answers by which pages are brought, and those that tell that there is no such cursor. -/
def bringing (id : String) (sheets : List Sheet) (late : Nat) : List (Except SessionError Bytes) :=
  sheets.map (fun p => .ok (p.payload id)) ++ List.replicate late (.error (.cursor (.notFound id)))

/-- How far the reading of some entries has got: every turn brought a page or, once there were no
more entries, the failure that the cursor is gone. -/
structure Progress (s : SessionId) (c : Nat) (id : String) (entries : List Entry) (ts : List Turn)
    (n : Node) (sheets : List Sheet) (todo : List Entry) (late : Nat) : Prop where
  answers : List.Forall₂ (fun t result => Answers s t.job result t.before t.after) ts
    (bringing id sheets late)
  scanned : Scanned entries sheets todo
  begun : sheets ≠ []
  late : late ≠ 0 → todo = []
  left : ∃ ctx, n.context? s c = some ctx ∧ ctx.cursors.Left id todo

section Reading

variable {entries todo : List Entry} {ts : List Turn} {sheets : List Sheet} {late : Nat}
  {n₁ : Node}

theorem progress_of_open {max : Nat} {t : CursorTable Scan} (least : 0 < max)
    (yields : Yields s c job
      (t.openCursor max id (Scan.ofResults (entries.map .entry))) (n.cursorCount + 1) n n') :
    ∃ sheets todo, Progress s c id entries [⟨n, job, n'⟩] n' sheets todo 0 := by
  obtain ⟨answers, ⟨ctx, known, cursors⟩, _⟩ := yields
  obtain ⟨p, todo, page, left, split, more, filled⟩ :=
    CursorTable.left_of_advance (CursorTable.advance_openCursor t max id (entries.map .entry))
      (.inr least) rfl
  rw [page] at answers
  exact ⟨[p], todo, .cons answers .nil, (Scanned.start entries).read (by simp) split more filled,
    by simp, by simp, ctx, known, cursors ▸ left⟩

theorem progress_of_next {q : CursorRef} (h : Progress s c id entries ts n sheets todo late)
    (takes : Takes s c job (.next q) n n') (named : q.id = id) :
    ∃ sheets todo late, Progress s c id entries (ts ++ [⟨n, job, n'⟩]) n' sheets todo late := by
  obtain ⟨ctx, known, left⟩ := h.left
  obtain ⟨ses, found, known⟩ := context?_eq_some_iff.1 known
  obtain ⟨answers, ⟨ctx', known', cursors⟩, _⟩ := yields_next takes found known
  rw [named] at answers cursors
  have extended {result : Except SessionError Bytes} (answer : Answers s job result n n') :
      List.Forall₂ (fun t result => Answers s t.job result t.before t.after)
        (ts ++ [⟨n, job, n'⟩]) (bringing id sheets late ++ [result]) :=
    List.rel_append h.answers (.cons answer .nil)
  cases left with
  | past gone =>
    rw [CursorTable.advance_of_gone gone] at answers cursors
    refine ⟨sheets, [], late + 1, ?_, h.scanned, h.begun, fun _ => rfl, ctx', known', ?_⟩
    · have again := extended answers
      rw [bringing, List.append_assoc] at again
      rw [bringing, List.replicate_succ']
      exact again
    · rw [cursors]
      exact .past gone
  | some holds begun split more =>
    obtain ⟨p, todo', page, left, parts, more', filled⟩ :=
      CursorTable.left_of_advance (CursorTable.advance_of_holds holds ses.config.maxBatch)
        (.inl begun) split
    have early : late = 0 := Decidable.byContradiction fun some => more (h.late some)
    subst early
    rw [page] at answers
    refine ⟨sheets ++ [p], todo', 0, ?_, h.scanned.read (fun _ => more) parts more' filled,
      by simp, by simp, ctx', known', cursors ▸ left⟩
    have again := extended answers
    rw [bringing, List.replicate_zero, List.append_nil] at again ⊢
    rw [List.map_append]
    exact again

/-- As many pages as there are entries come to the end. -/
theorem Progress.ends (h : Progress s c id entries ts n sheets todo late)
    (enough : entries.length ≤ ts.length) :
    ∃ p, sheets.getLast? = some p ∧ p.hasMore = false := by
  have turns : ts.length = sheets.length + late := by
    rw [h.answers.length_eq, bringing, List.length_append, List.length_map, List.length_replicate]
  have none : todo = [] := by
    by_contra some
    have early : late = 0 := Decidable.byContradiction fun later => some (h.late later)
    have short := h.scanned.length_lt some
    omega
  rcases List.eq_nil_or_concat sheets with nothing | ⟨before, p, rfl⟩
  · exact absurd nothing h.begun
  · refine ⟨p, by simp, Bool.eq_false_iff.2 fun more => ?_⟩
    have others := (h.scanned.more before p [] (List.concat_eq_append ..)).1 more
    simp [none] at others

theorem Progress.spared (h : Progress s c id entries ts n sheets todo late)
    (spares : Spares s c id n n') (fresh : ¬ Opens id n n') :
    Progress s c id entries ts n' sheets todo late := by
  obtain ⟨ctx, known, left⟩ := h.left
  obtain ⟨ctx', known', keeps⟩ := spares.context fresh known
  exact ⟨h.answers, h.scanned, h.begun, h.late, ctx', known', left.keeps keeps⟩

theorem Reading.moves (h : Reading P s c id n ts n') : Moves P n n' := by
  induction h with
  | start => exact .refl
  | next _ takes _ ih => exact ih.tail (.work takes.took)
  | other _ move _ _ _ ih => exact ih.tail move

/-- Whatever happens in between, the reading of a scan goes on where it was, as long as no other
cursor is opened with its identifier. -/
theorem progress_of_reading {job : Job} {n₀ : Node} (sound : n.Sound)
    (opened : ∃ sheets todo, Progress s c id entries [⟨n₀, job, n⟩] n sheets todo 0)
    (reading : Reading P s c id n ts n') :
    n.cursorCount ≤ n'.cursorCount ∧ (¬ Opens id n n' →
      ∃ sheets todo late, Progress s c id entries (⟨n₀, job, n⟩ :: ts) n' sheets todo late) := by
  induction reading with
  | start =>
    obtain ⟨sheets, todo, progress⟩ := opened
    exact ⟨Nat.le_refl _, fun _ => ⟨sheets, todo, 0, progress⟩⟩
  | @next n₁ n₂ ts job q reading takes named ih =>
    obtain ⟨grows, ih⟩ := ih
    have count := count_next (sound_moves sound reading.moves) takes
    refine ⟨count.symm ▸ grows, fun fresh => ?_⟩
    obtain ⟨sheets, todo, late, progress⟩ :=
      ih fun opens => fresh (opens.mono (Nat.le_refl _) (Nat.le_of_eq count.symm))
    exact progress_of_next progress takes named
  | @other n₁ n₂ ts reading move unread untold kept ih =>
    obtain ⟨grows, ih⟩ := ih
    have spares := spares_move (sound_moves sound reading.moves) move kept untold unread
    refine ⟨Nat.le_trans grows spares.count, fun fresh => ?_⟩
    obtain ⟨sheets, todo, late, progress⟩ :=
      ih fun opens => fresh (opens.mono (Nat.le_refl _) spares.count)
    exact ⟨sheets, todo, late,
      progress.spared spares fun opens => fresh (opens.mono grows (Nat.le_refl _))⟩

/-- A contract opens a scan of its namespace and asks for one page after the other. Whatever happens
in between, the pages hold the entries that the scan selects as the ledger held them when it was
opened, in ascending order of their keys, and each page tells whether there are more. As many pages
as there are entries come to the end, and the cursor is gone then. -/
theorem scanned_of_moves {channels historyless system : List String} {drill : Drill}
    {sel : Selection} {sim : Simulator} {name : String}
    (run : Moves P (withChannels channels historyless system drill) n)
    (found : n.session? s = some ses) (place : ses.space = .ok name)
    (known : n.context? s c = some ctx) (right : ctx.simulator = some sim)
    (there : n.ledger.hasChannel sim.channel = true) (ordinary : n.drill.Leaves sel.start)
    (least : 0 < ses.config.maxBatch) (takes : Takes s c job r n n₁)
    (selects : r.selection? = some sel)
    (reading : Reading P s c (cursorId n.cursorCount) n₁ ts n')
    (few : n'.cursorCount ≤ Nat.pow 16 12) :
    ∃ entries sheets todo late,
      Progress s c (cursorId n.cursorCount) entries (⟨n, job, n₁⟩ :: ts) n' sheets todo late ∧
      (∀ e, e ∈ entries ↔ e.space = name ∧ sel.picks e.key = true ∧
        (n.ledger.space sim.channel name).read sel.collection e.key = some e.value) ∧
      (entries.Pairwise fun e e' => Text.Before e.key e'.key) ∧
      (entries.length ≤ ts.length + 1 → ∃ p, sheets.getLast? = some p ∧ p.hasMore = false) ∧
      (∀ p, sheets.getLast? = some p → p.hasMore = false →
        sheets.flatMap (·.entries) = entries) ∧
      (∀ p ∈ sheets, (p.payload (cursorId n.cursorCount)).length < wireLimit →
        p.Decodes (cursorId n.cursorCount)) ∧
      ((∀ a, P a → a.isBound = true) → sim = ⟨ctx.channel, ctx.tx⟩) := by
  have sound := sound_moves (sound_withChannels channels historyless system drill) run
  obtain ⟨ses', found', known'⟩ := context?_eq_some_iff.1 known
  cases Option.some.inj (found.symm.trans found')
  have yields := yields_open takes selects found known' right place there ordinary
  obtain ⟨grows, reads⟩ := progress_of_reading (sound_move sound (.work (P := P) takes.took))
    (progress_of_open least yields) reading
  rw [yields.count] at grows
  obtain ⟨sheets, todo, late, progress⟩ := reads fun ⟨k, from_, below, same⟩ => by
    rw [yields.count] at from_
    have again := cursorId_injective (Nat.lt_of_lt_of_le below few)
      (Nat.lt_of_lt_of_le grows few) same
    omega
  refine ⟨_, sheets, todo, late, progress, fun e => Ledger.mem_selected_iff,
    Ledger.ascending_selected .., progress.ends, fun p last none => ?_, fun p _ => Sheet.decodes,
    fun built => ?_⟩
  · obtain ⟨init, rfl⟩ := List.getLast?_eq_some_iff.1 last
    exact progress.scanned.complete none
  · obtain ⟨ses', there, _, registered⟩ := takes.lands.about
    cases Option.some.inj (found.symm.trans there)
    have every : n.Every Context.Bound :=
      every_moves hereditary_bound (every_withChannels channels historyless system drill) built run
    exact (every s ses found).found registered known' sim right

end Reading

/-! ## A scan with a write in between -/

/-- Whether a worker would take a request up next, which lands in a context. -/
def isNext (n : Node) (s : SessionId) (c : Nat) (job : Job) : Bool :=
  (n.session? s).any fun ses =>
    ses.pool.take.map Prod.fst == some (.job job) &&
      !ses.transactions.markers.contains job.message.key &&
        ses.transactions.find? job.message.channel job.message.tx == some c

theorem takes_of_isNext (next : n.isNext s c job = true) (took : n.work? s = some n')
    (read : Request.decode job.kind job.message.payload = .ok r) : Takes s c job r n n' := by
  obtain ⟨ses, found, holds⟩ := (Option.any_eq_true ..).1 next
  simp only [Bool.and_eq_true, beq_iff_eq, Bool.not_eq_true', List.contains_eq_mem,
    decide_eq_false_iff_not] at holds
  obtain ⟨⟨first, free⟩, registered⟩ := holds
  obtain ⟨⟨_, pool⟩, taken, rfl⟩ := Option.map_eq_some_iff.1 first
  exact ⟨took, ⟨read, ses, found, free, registered⟩, ses, pool, found, taken⟩

theorem job_of_takes {job' : Job} (next : n.isNext s c job = true) (takes : Takes s c job' r n n') :
    job' = job := by
  obtain ⟨ses, found, holds⟩ := (Option.any_eq_true ..).1 next
  obtain ⟨ses', pool, found', taken⟩ := takes.first
  cases Option.some.inj (found.symm.trans found')
  simp only [Bool.and_eq_true, beq_iff_eq, taken, Option.map_some, Option.some.injEq,
    Task.job.injEq] at holds
  exact holds.1.1

theorem ledger_shows {m : Message} (shows : Shows s m n n') : n'.ledger = n.ledger := by
  cases shows with
  | handed =>
    have handled : Stretch (fun _ _ => True) n (n.handle s m) := stretch_handle fun _ _ _ => trivial
    exact handled.leaves.ledger
  | received found _ _ took =>
    have turn : Stretch (fun _ _ => True) n n' :=
      stretch_receive? took found fun _ _ _ _ _ => trivial
    exact turn.leaves.ledger
  | triggered found _ _ _ took =>
    have turn : Stretch (fun _ _ => True) n n' :=
      stretch_command? took found fun _ _ _ _ _ _ _ => trivial
    exact turn.leaves.ledger

/-- A move that changes the ledger tells nobody anything. -/
theorem untold_of_ledger (changed : n'.ledger ≠ n.ledger)
    (live : ∀ ses', n'.session? s = some ses' → ses'.phase ≠ .ended) : ¬ Tells s c n n' := by
  intro tells
  cases tells with
  | handed => exact changed rfl
  | shown shows => exact changed (ledger_shows shows)
  | ended _ _ found' ended => exact live _ found' ended

def scanning (channel tx : String) : Message :=
  { kind := .getStateByRange, channel, tx, payload := KeyRange.codec.encode {} }

def paging (channel tx : String) (k : Nat) : Message :=
  { kind := .queryStateNext, channel, tx
    payload := CursorRef.nextCodec.encode { id := cursorId k } }

/-- The contract of a transaction, with room for one result on a page. -/
def pagingRun : List Act :=
  [.openSession { maxBatch := 1 } {} .directory, .start 0,
    .contractSends 0 { kind := .register, payload := ContractId.codec.encode { name := "cc" } },
    .seed "ch" "t0" "cc" none [("k1", [1]), ("k2", [2])], .ready 0 "ch" "t1" none none]

/-- The contract sets a key between its pages, which hold what the key was before. -/
theorem scanned_of_moves_pagingRun : ∃ n n₁ n₂ n₃ : Node,
    n.work? 0 = some n₁ ∧ n₁.work? 0 = some n₂ ∧ n₂.work? 0 = some n₃ ∧
      (n₁.ledger.state "ch" "cc" "k2").toOption = some (some [2]) ∧
      (n₂.ledger.state "ch" "cc" "k2").toOption = some (some [1]) ∧
      ∃ entries sheets todo late,
        Progress 0 0 (cursorId 0) entries [⟨n, ⟨.range, scanning "ch" "t1"⟩, n₁⟩,
          ⟨n₂, ⟨.next, paging "ch" "t1" 0⟩, n₃⟩] n₃ sheets todo late ∧
        (∀ e, e ∈ entries ↔ e.space = "cc" ∧ (n.ledger.space "ch" "cc").read none e.key =
          some e.value) := by
  let n₀ := (withChannels ["ch"] [] [] {}).steps pagingRun
  let a₁ := n₀.act (.contractSends 0 (scanning "ch" "t1"))
  let a₂ := a₁.act (.contractSends 0 (setting "ch" "t1" "k2"))
  let a₃ := a₂.act (.contractSends 0 (paging "ch" "t1" 0))
  have turns : (a₃.receive? 0).any (fun m₁ => (m₁.receive? 0).any fun m₂ =>
      (m₂.receive? 0).any fun n => (n.isNext 0 0 ⟨.range, scanning "ch" "t1"⟩ &&
        n.drill == {} && n.ledger.hasChannel "ch" && n.cursorCount == 0 &&
        (n.context? 0 0).any (fun ctx => ctx.simulator == some ⟨"ch", "t1"⟩) &&
        (n.session? 0).any (fun ses => ses.space == .ok "cc" && ses.config.maxBatch == 1)) &&
      (n.work? 0).any fun n₁ => (n₁.isNext 0 0 ⟨.put, setting "ch" "t1" "k2"⟩ &&
        (n₁.ledger.state "ch" "cc" "k2").toOption == some (some [2])) &&
      (n₁.work? 0).any fun n₂ => (n₂.isNext 0 0 ⟨.next, paging "ch" "t1" 0⟩ &&
        (n₂.ledger.state "ch" "cc" "k2").toOption == some (some [1]) &&
        (n₂.session? 0).any (fun ses => ses.phase == .ready &&
          ses.transactions.index.get? "cht1" == some 0)) &&
      (n₂.work? 0).any fun n₃ => n₃.cursorCount == 1) = true := by
    decide +kernel
  simp only [Option.any_eq_true, Bool.and_eq_true, beq_iff_eq] at turns
  obtain ⟨m₁, first, m₂, second, n, third,
    ⟨⟨⟨⟨⟨⟨opens, drill⟩, there⟩, none⟩, ctx, known, right⟩, ses, found, place, batch⟩, n₁, took,
      ⟨writes, old⟩, n₂, took₁, ⟨⟨asks, new⟩, ses₂, found₂, live, registered⟩, n₃, took₂, one⟩⟩ :=
    turns
  have base : Moves (·.isBound = true) (withChannels ["ch"] [] [] {}) n₀ :=
    moves_steps (by decide +kernel)
  have sent₁ : Moves (·.isBound = true) _ a₁ := base.tail (.act _ rfl fun _ => nofun)
  have sent₂ : Moves (·.isBound = true) _ a₂ := sent₁.tail (.act _ rfl fun _ => nofun)
  have sent₃ : Moves (·.isBound = true) _ a₃ := sent₂.tail (.act _ rfl fun _ => nofun)
  have run := ((sent₃.tail (.receive first)).tail (.receive second)).tail (.receive third)
  have untold : ¬ Tells 0 0 n₁ n₂ := by
    refine untold_of_ledger (fun same => ?_) fun ses' found' ended => ?_
    · rw [same, old] at new
      exact absurd new (by decide)
    · cases Option.some.inj (found₂.symm.trans found')
      rw [live] at ended
      cases ended
  have unread (job : Job) (r : Request) (takes : Takes 0 0 job r n₁ n₂) :
      r.cursor? ≠ some (cursorId n.cursorCount) := by
    cases job_of_takes writes takes
    have kind := Request.kind_of_decode takes.lands.read
    cases r with
    | put w => nofun
    | _ => cases kind
  have opened : Takes 0 0 ⟨.range, scanning "ch" "t1"⟩ (.range {}) n n₁ :=
    takes_of_isNext opens took (by decide +kernel)
  have asked : Takes 0 0 ⟨.next, paging "ch" "t1" 0⟩ (.next ⟨cursorId 0⟩) n₂ n₃ :=
    takes_of_isNext asks took₂ (by decide +kernel)
  have reading : Reading (·.isBound = true) 0 0 (cursorId n.cursorCount) n₁
      [⟨n₂, ⟨.next, paging "ch" "t1" 0⟩, n₃⟩] n₃ :=
    .next (.other (.start n₁) (.work took₁) unread untold ⟨ses₂, _, found₂, registered⟩) asked
      (by rw [none])
  have ordinary : n.drill.Leaves "" := by
    rw [drill]
    exact ⟨rfl, rfl⟩
  obtain ⟨entries, sheets, todo, late, progress, mem, -⟩ := scanned_of_moves run found place known
    right there ordinary (by rw [batch]; decide) opened rfl reading (by rw [one]; decide)
  rw [none] at progress
  refine ⟨n, n₁, n₂, n₃, took, took₁, took₂, old, new, entries, sheets, todo, late, progress,
    fun e => (mem e).trans (and_congr_right fun _ => and_iff_right ?_)⟩
  exact decide_eq_true ⟨List.not_lt_nil _, .inl rfl⟩

/-- Whoever waits for the transaction is told something that does not end it, which closes its
cursors: the next page is not brought although the contract has closed nothing and the context is
still registered. -/
theorem unread_of_told :
    let n := ((withChannels ["ch"] [] [] {}).steps pagingRun).step
      (.contractSends 0 (scanning "ch" "t1"))
    let n' := n.step (.notify 0 { kind := .response, channel := "ch", tx := "t1" })
    let next : Act := .contractSends 0 (paging "ch" "t1" 0)
    let sent (n : Node) := (n.session? 0).bind (·.link.outbox.queue.getLast?)
    sent n = some (reply (scanning "ch" "t1") (.ok ((⟨[⟨"cc", "k1", [1]⟩], true⟩ : Sheet).payload
      (cursorId 0)))) ∧
    sent (n.step next) = some (reply (paging "ch" "t1" 0) (.ok
      ((⟨[⟨"cc", "k2", [2]⟩], false⟩ : Sheet).payload (cursorId 0)))) ∧
    (n'.session? 0).bind (·.transactions.find? "ch" "t1") = some 0 ∧
    (n'.ledger.state "ch" "cc" "k2").toOption = some (some [2]) ∧
    sent (n'.step next) = some (reply (paging "ch" "t1" 0) (.error (.cursor (.notFound
      (cursorId 0))))) := by
  decide +kernel

end Node

end ContractNode
