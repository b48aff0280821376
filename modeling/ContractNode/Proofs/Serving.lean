import ContractNode.Proofs.Inside

/-!
# Serving requests

* `Stretch` : a path that leaves the ledger alone, on which only certain new requests are queued;
* `Course` : one that leaves every lifecycle where it is besides;
* `Carried` : what carrying a request out in a context comes to (`carried_perform`);
* `Dealt` : what serving one comes to (`dealt_serve`): it is dropped, or answered, or waits;
* `Served` : which courses that takes (`served_serve`).
-/

namespace ContractNode

namespace Node

/-! ## Courses -/

theorem Chore.path {n n' : Node} (h : Chore n n') : Path n n' := .single (.chore h)

def phases (n : Node) : List Phase := n.sessions.map (·.phase)

theorem phases_modify {n : Node} {s : SessionId} {f : Session → Session}
    (h : ∀ ses, (f ses).phase = ses.phase) : (n.modify s f).phases = n.phases :=
  map_modify fun ses _ => h ses

/-- A path that leaves the ledger alone, on which no requests are queued but certain new ones. -/
structure Stretch (new : SessionId → Job → Prop) (n n' : Node) : Prop where
  path : Path n n'
  leaves : Leaves new n n'

/-- A stretch that leaves every lifecycle where it is. -/
structure Course (new : SessionId → Job → Prop) (n n' : Node) : Prop extends Stretch new n n' where
  phases : n'.phases = n.phases

variable {new : SessionId → Job → Prop}

namespace Stretch

theorem refl (n : Node) : Stretch new n n := ⟨.refl, .refl n⟩

theorem trans {n n' n'' : Node} (h : Stretch new n n') (h' : Stretch new n' n'') :
    Stretch new n n'' := ⟨h.path.trans h'.path, h.leaves.trans h'.leaves⟩

end Stretch

namespace Course

theorem refl (n : Node) : Course new n n := ⟨.refl n, rfl⟩

theorem trans {n n' n'' : Node} (h : Course new n n') (h' : Course new n' n'') :
    Course new n n'' := ⟨h.toStretch.trans h'.toStretch, h'.phases.trans h.phases⟩

theorem chore {n n' : Node} (h : Chore n n') (leaves : Leaves new n n')
    (same : n'.phases = n.phases) : Course new n n' := ⟨⟨h.path, leaves⟩, same⟩

theorem modify {n : Node} {s : SessionId} {f : Session → Session} (h : Chore n (n.modify s f))
    (errands : ∀ ses, (f ses).errands = ses.errands) (phase : ∀ ses, (f ses).phase = ses.phase) :
    Course new n (n.modify s f) :=
  .chore h (.apart n s errands) (phases_modify phase)

end Course

theorem course_send {n : Node} {s : SessionId} {ses ses' : Session} {m : Message}
    (found : n.session? s = some ses) (sent : ses.send m = .ok ses') :
    Course new n (n.modify s fun _ => ses') := by
  unfold Session.send at sent
  split at sent
  · cases sent
  · rename_i link linked
    cases sent
    rw [← modify_found found fun ses => { ses with link := link }]
    exact .modify (.send found linked) (fun _ => rfl) fun _ => rfl

theorem course_sendAnyway (n : Node) (s : SessionId) (m : Message) :
    Course new n (n.modify s (·.sendAnyway m)) := by
  cases found : n.session? s with
  | none => rw [modify_self fun ses h => by rw [found] at h; cases h]; exact .refl n
  | some ses =>
    rw [modify_found found]
    unfold Session.sendAnyway
    cases sent : ses.send m with
    | error e =>
      show Course new n (n.modify s fun _ => id ses)
      rw [← modify_found found id, modify_self (f := id) fun _ _ => rfl]
      exact .refl n
    | ok ses' => exact course_send found sent

theorem course_enqueue (n : Node) (s : SessionId) (c : Command) :
    Course new n (n.modify s fun ses => (ses.enqueue c).2) := by
  cases found : n.session? s with
  | none => rw [modify_self fun ses h => by rw [found] at h; cases h]; exact .refl n
  | some ses =>
    by_cases off : ses.outbound = .stopped
    · rw [modify_self]
      · exact .refl n
      · intro ses' found'
        cases Option.some.inj (found.symm.trans found')
        simp [Session.enqueue, off]
    · rw [modify_congr (g := fun ses => { ses with commands := ses.commands ++ [.next c] })]
      · exact .modify (.enqueue c found off) (fun _ => rfl) fun _ => rfl
      · intro ses' found'
        cases Option.some.inj (found.symm.trans found')
        simp [Session.enqueue, off]

theorem course_reply (n : Node) (s : SessionId) (kind : RequestKind) (m : Message) :
    Course new n (n.modify s (·.reply kind m)) := by
  unfold Session.reply
  cases kind.route with
  | direct => exact course_sendAnyway n s m
  | outbound => exact course_enqueue n s _

/-! ## Requests -/

/-- What carrying a request out in a context comes to, once its marker `k` is claimed. -/
inductive Carried (n : Node) (s : SessionId) (k : String) (job : Job) (c : Nat) (ctx : Context) :
    Outcome → Node → Prop
  | answered {n' : Node} {result : Except SessionError Bytes} (course : ∀ new, Course new n n')
      (inside : Inside n n') :
      Carried n s k job c ctx (.answered result) (n'.modify s (·.claim k))
  | parked {p : ParkedRead} (read : job.kind = .get) (itself : p.job = job)
      (place : p.context = c) (right : ctx.simulator = some p.simulator)
      (gated : p.ref.key ∈ n.gates) :
      Carried n s k job c ctx (.parked p) (n.modify s (·.claim k))
  | calling {t : SessionId} {ses' : Session} {c' : Context} {m : Message}
      (calls : job.kind = .invoke) (kind : m.kind = .transaction)
      (found : (n.modify s (·.claim k)).session? t = some ses') (on : ses'.outbound ≠ .stopped)
      (course : ∀ new, Course new n
        ((n.modify s (·.claim k)).began t ses' c' m (.request s c job.message))) :
      Carried n s k job c ctx .calling
        ((n.modify s (·.claim k)).began t ses' c' m (.request s c job.message))

namespace Carried

variable {n : Node} {s : SessionId} {k : String} {job : Job} {c : Nat} {ctx : Context}

theorem unchanged {result : Except SessionError Bytes} :
    Carried n s k job c ctx (.answered result) (n.modify s (·.claim k)) :=
  .answered (fun _ => .refl n) (.refl n)

theorem withRight {ses : Session} {f : Simulator → String → Outcome × Node}
    (h : ∀ sim space, ctx.simulator = some sim →
      Carried n s k job c ctx (f sim space).1 (f sim space).2) :
    Carried n s k job c ctx ((n.modify s (·.claim k)).withRight ses ctx f).1
      ((n.modify s (·.claim k)).withRight ses ctx f).2 := by
  unfold Node.withRight rightOf
  cases right : ctx.simulator with
  | none => exact unchanged
  | some sim =>
    cases ses.space with
    | error e => exact unchanged
    | ok space => exact h sim space right

theorem withHistory {ses : Session} {f : Historian → String → Outcome × Node}
    (h : ∀ right space, Carried n s k job c ctx (f right space).1 (f right space).2) :
    Carried n s k job c ctx ((n.modify s (·.claim k)).withHistory ses ctx f).1
      ((n.modify s (·.claim k)).withHistory ses ctx f).2 := by
  unfold Node.withHistory
  cases ctx.historian with
  | none => exact unchanged
  | some right =>
    cases ses.space with
    | error e => exact unchanged
    | ok space => exact h right space

end Carried

theorem modifyCursors_claim (n : Node) (s : SessionId) (k : String) (c : Nat)
    (t : CursorTable Scan) :
    (n.modify s (·.claim k)).modifyCursors s c t = (n.modifyCursors s c t).modify s (·.claim k) :=
  modify_comm _ _ _ fun _ => rfl

section Contexts

variable {n : Node} {s : SessionId} {ses : Session} {k : String} {job : Job} {channel tx : String}
  {c : Nat} {ctx : Context}

theorem carried_openCursor (found : n.session? s = some ses)
    (registered : ses.transactions.find? channel tx = some c)
    (known : ses.transactions.context? c = some ctx) (r : Except LedgerError Scan) :
    Carried n s k job c ctx
      ((n.modify s (·.claim k)).openCursor s c ses.config.maxBatch ctx r).1
      ((n.modify s (·.claim k)).openCursor s c ses.config.maxBatch ctx r).2 := by
  cases r with
  | error e => exact .unchanged
  | ok scan =>
    simp only [openCursor, modifyCursors_claim]
    have opened (new : SessionId → Job → Prop) : Course new n { n.modifyCursors s c
        (ctx.cursors.openCursor ses.config.maxBatch (cursorId n.cursorCount) scan).2 with
          cursorCount := n.cursorCount + 1 } := by
      refine ⟨⟨.single (.openCursor scan found registered known), ?_⟩, ?_⟩
      · exact (leaves_modifyContext ..).trans (.outside rfl rfl)
      · show (n.modifyCursors s c _).phases = _
        exact phases_modify fun _ => rfl
    exact .answered opened ((inside_modifyCursors ..).trans (.outside _ _ _))

theorem carried_page (t : CursorTable Scan) (r : Except CursorError Page)
    (deed : Deed n (n.modifyCursors s c t)) :
    Carried n s k job c ctx (paged r) ((n.modify s (·.claim k)).modifyCursors s c t) := by
  rw [modifyCursors_claim]
  exact .answered (fun _ => ⟨⟨.single deed, leaves_modifyContext ..⟩, phases_modify fun _ => rfl⟩)
    (inside_modifyCursors ..)

theorem carried_abandoned {t : SessionId} {ses' : Session} {c' : Context} {e : SessionError}
    (found : (n.modify s (·.claim k)).session? t = some ses')
    (fresh : ses'.transactions.index.get? c'.key = none) (off : ses'.outbound = .stopped)
    (given : c'.cursors = {}) :
    Carried n s k job c ctx (.answered (.error e)) ((n.modify s (·.claim k)).abandoned t c') := by
  have there : ∃ ses, n.session? t = some ses ∧ ses.transactions.index.get? c'.key = none ∧
      ses.outbound = .stopped := by
    rcases session?_modify_cases found with ⟨rfl, ses, there, rfl⟩ | ⟨_, found⟩
    · exact ⟨ses, there, fresh, off⟩
    · exact ⟨ses', found, fresh, off⟩
  obtain ⟨ses, found, fresh, off⟩ := there
  have swap : (n.modify s (·.claim k)).abandoned t c' =
      (n.abandoned t c').modify s (·.claim k) := modify_comm _ _ _ fun _ => rfl
  have empty : ({ c'.closeCursors with slot := c'.slot.drop } : Context).cursors = {} := by
    simp only [Context.closeCursors, given]
    rfl
  rw [swap]
  refine .answered (fun _ => ⟨⟨.single ?_, .apart n t fun _ => rfl⟩, phases_modify fun _ => rfl⟩)
    (inside_abandoned ..)
  exact .bury _ found off fresh empty

theorem carried_began {t : SessionId} {i : Invocation} {ses' : Session} {c' : Context} {m : Message}
    (calls : job.kind = .invoke) (kind : m.kind = .transaction)
    (found : (n.modify s (·.claim k)).session? t = some ses') (on : ses'.outbound ≠ .stopped)
    (deed : Deed n ((n.modify s (·.claim k)).began t ses' c' m (.request s c job.message)))
    (begun : (n.modify s (·.claim k)).beginCall t i (.request s c job.message) =
      (.ok (), (n.modify s (·.claim k)).began t ses' c' m (.request s c job.message))) :
    Carried n s k job c ctx .calling
      ((n.modify s (·.claim k)).began t ses' c' m (.request s c job.message)) := by
  refine .calling calls kind found on fun new => ⟨⟨.single deed, ?_⟩, ?_⟩
  · have claimed : Leaves new n (n.modify s (·.claim k)) := .apart n s fun _ => rfl
    exact claimed.trans (leaves_beginCall begun)
  · have same : (n.modify s (·.claim k)).phases = n.phases := phases_modify fun _ => rfl
    refine Eq.trans ?_ same
    show ((n.modify s _).modify t _).phases = _
    refine phases_modify ?_
    exact fun _ => rfl

theorem carried_callSession {spec : CallSpec} {rights : Simulator × Option Historian}
    (calls : job.kind = .invoke)
    (found : n.session? s = some ses) (free : k ∉ ses.transactions.markers)
    (key : k = job.message.key)
    (registered : ses.transactions.find? job.message.channel job.message.tx = some c)
    (known : ses.transactions.context? c = some ctx)
    (righted : n.callRights ctx (spec.target ctx.channel) = .ok rights) :
    Carried n s k job c ctx
      ((n.modify s (·.claim k)).callSession (invocation ctx spec rights)
        (.request s c job.message)).1
      ((n.modify s (·.claim k)).callSession (invocation ctx spec rights)
        (.request s c job.message)).2 := by
  simp only [callSession]
  split
  · exact .unchanged
  · split
    · exact .unchanged
    · rename_i t resolved
      cases begun : (n.modify s (·.claim k)).beginCall t (invocation ctx spec rights)
        (.request s c job.message) with
      | mk outcome n' =>
        rcases beginCall_cases begun with ⟨e, rfl, rfl⟩ | ⟨m, c', made, comes⟩
        · exact .unchanged
        · cases comes with
          | missing | duplicate => exact .unchanged
          | stopped found' fresh off =>
            exact carried_abandoned found' fresh off (blank_of_called made).cursors
          | waits found' _ on =>
            subst key
            exact carried_began calls (kind_of_called made) found' on
              (.call found free registered known righted resolved begun) begun

theorem carried_invoke {ses' : Session} {spec : CallSpec} (calls : job.kind = .invoke)
    (found : n.session? s = some ses) (free : k ∉ ses.transactions.markers)
    (key : k = job.message.key)
    (registered : ses.transactions.find? job.message.channel job.message.tx = some c)
    (known : ses.transactions.context? c = some ctx) :
    Carried n s k job c ctx
      ((n.modify s (·.claim k)).invoke s ses' c ctx job.message spec).1
      ((n.modify s (·.claim k)).invoke s ses' c ctx job.message spec).2 := by
  simp only [invoke]
  split
  · exact .unchanged
  · split
    · exact .unchanged
    · rename_i rights righted
      split
      · exact .unchanged
      · exact carried_callSession calls found free key registered known righted

theorem carried_perform (found : n.session? s = some ses) (free : k ∉ ses.transactions.markers)
    (key : k = job.message.key) (reads : job.kind.writes = false)
    (registered : ses.transactions.find? job.message.channel job.message.tx = some c)
    (known : ses.transactions.context? c = some ctx) {r : Request}
    (read : Request.decode job.kind job.message.payload = .ok r) :
    Carried n s k job c ctx
      ((n.modify s (·.claim k)).perform s (ses.claim k) c ctx job r).1
      ((n.modify s (·.claim k)).perform s (ses.claim k) c ctx job r).2 := by
  cases r with
  | get r =>
    refine .withRight fun sim space right => ?_
    split
    · rename_i holds
      have gated : r.key ∈ n.gates := List.contains_iff_mem.1 (Bool.and_eq_true_iff.1 holds).1
      exact .parked (Request.kind_of_decode read).symm rfl rfl right gated
    · exact .unchanged
  | put w =>
    rw [← Request.kind_of_decode read] at reads
    cases reads
  | delete r =>
    rw [← Request.kind_of_decode read] at reads
    cases reads
  | range r => exact .withRight fun sim space _ => carried_openCursor found registered known _
  | query q => exact .withRight fun sim space _ => carried_openCursor found registered known _
  | history r => exact .withHistory fun right space => carried_openCursor found registered known _
  | next r =>
    have deed := Deed.advance r.id found registered known
    exact carried_page _ _ deed
  | close r =>
    have deed := Deed.closeCursor r.id found registered known
    exact carried_page _ (.ok { id := r.id }) deed
  | invoke spec =>
    exact carried_invoke (Request.kind_of_decode read).symm found free key registered known

theorem carried_attempt (found : n.session? s = some ses) (reads : job.kind.writes = false)
    (free : job.message.key ∉ ses.transactions.markers) :
    (∃ result, (n.modify s (·.claim job.message.key)).attempt s
      (ses.claim job.message.key) job =
        (.answered result,
          n.modify s (·.claim job.message.key))) ∨
    ∃ c ctx, ses.transactions.find? job.message.channel job.message.tx = some c ∧
      ses.transactions.context? c = some ctx ∧
      Carried n s job.message.key job c ctx
        ((n.modify s (·.claim job.message.key)).attempt s
          (ses.claim job.message.key) job).1
        ((n.modify s (·.claim job.message.key)).attempt s
          (ses.claim job.message.key) job).2 := by
  unfold attempt
  cases read : Request.decode job.kind job.message.payload with
  | error e => exact .inl ⟨_, rfl⟩
  | ok request =>
    have registered' : (ses.claim job.message.key).transactions.find?
        job.message.channel job.message.tx =
          ses.transactions.find? job.message.channel job.message.tx := rfl
    simp only [registered']
    cases registered : ses.transactions.find? job.message.channel job.message.tx with
    | none => exact .inl ⟨_, rfl⟩
    | some c =>
      have known' : (ses.claim
          job.message.key).transactions.context? c =
            ses.transactions.context? c := rfl
      simp only [known']
      cases known : ses.transactions.context? c with
      | none => exact .inl ⟨_, rfl⟩
      | some ctx =>
        exact .inr ⟨c, ctx, rfl, known, carried_perform found free rfl reads registered known read⟩

end Contexts

/-- What serving a request comes to. One whose marker is held is dropped. Any other is answered at
once, or waits for its key, or waits for a call. -/
inductive Dealt (n : Node) (s : SessionId) (ses : Session) (job : Job) :
    Option ParkedRead → Node → Prop
  | dropped (held : job.message.key ∈ ses.transactions.markers) : Dealt n s ses job none n
  | answered {n' : Node} {result : Except SessionError Bytes}
      (free : job.message.key ∉ ses.transactions.markers) (inside : Inside n n')
      (course : ∀ new, Course new n n') :
      Dealt n s ses job none (n'.modify s (·.reply job.kind (reply job.message result)))
  | stored {ctx : Context} {sim : Simulator} {space : String} {w : Write} {l : Ledger}
      (stores : n.Stores ses job ctx sim space w l) : Dealt n s ses job none
        ({ n with ledger := l }.modify s (·.reply job.kind (reply job.message (.ok []))))
  | parked {ctx : Context} {p : ParkedRead} (read : job.kind = .get) (itself : p.job = job)
      (free : job.message.key ∉ ses.transactions.markers)
      (registered : ses.transactions.find? job.message.channel job.message.tx = some p.context)
      (known : ses.transactions.context? p.context = some ctx)
      (right : ctx.simulator = some p.simulator) (gated : p.ref.key ∈ n.gates) :
      Dealt n s ses job (some p) (n.modify s (·.claim job.message.key))
  | calling {t : SessionId} {ses' : Session} {c : Nat} {c' : Context} {m : Message}
      (calls : job.kind = .invoke) (kind : m.kind = .transaction)
      (free : job.message.key ∉ ses.transactions.markers)
      (found : (n.modify s (·.claim job.message.key)).session? t = some ses')
      (on : ses'.outbound ≠ .stopped)
      (course : ∀ new, Course new n ((n.modify s (·.claim job.message.key)).began t ses' c' m
        (.request s c job.message))) :
      Dealt n s ses job none
        ((n.modify s (·.claim job.message.key)).began t ses' c' m (.request s c job.message))

section Dealt

variable {n : Node} {s : SessionId} {ses : Session} {job : Job}

theorem dealt_answer {n' : Node} {result : Except SessionError Bytes}
    (found : n.session? s = some ses) (free : job.message.key ∉ ses.transactions.markers)
    (inside : Inside n n') (course : ∀ new, Course new n n') :
    Dealt n s ses job none ((n'.modify s (·.claim job.message.key)).answer s job result) := by
  rw [answer_claimed]
  · exact .answered free inside course
  · intro ms known
    rw [inside.markers, markers, found] at known
    cases known
    exact free

theorem dealt_serve (found : n.session? s = some ses) (job : Job) :
    Dealt n s ses job (n.serve s job).1 (n.serve s job).2 := by
  cases writes : job.kind.writes with
  | true =>
    have served := writeServed_serve found writes
    by_cases held : job.message.key ∈ ses.transactions.markers
    · rw [serve_held found held]
      exact .dropped held
    · generalize n.serve s job = r at served ⊢
      cases served with
      | dropped held' => exact absurd held' held
      | refused e => exact .answered held (.refl n) fun _ => .refl n
      | stored stores => exact .stored stores
  | false =>
    by_cases held : job.message.key ∈ ses.transactions.markers
    · rw [serve_held found held]
      exact .dropped held
    · rw [serve_free found held]
      rcases carried_attempt found writes held with
        ⟨result, tried⟩ | ⟨c, ctx, registered, known, carried⟩
      · rw [tried]
        exact dealt_answer found held (.refl n) fun _ => .refl n
      · generalize (n.modify s (·.claim job.message.key)).attempt s
          (ses.claim job.message.key) job = tried at carried
        obtain ⟨outcome, n'⟩ := tried
        cases carried with
        | answered course inside => exact dealt_answer found held inside course
        | parked read itself place right gated =>
          subst place
          exact .parked read itself held registered known right gated
        | calling calls kind found' on course => exact .calling calls kind held found' on course

end Dealt

/-- Which courses serving a request takes. -/
inductive Served (n : Node) (s : SessionId) (job : Job) : Option ParkedRead → Node → Prop
  | done {n' : Node} (course : ∀ new, Course new n n') : Served n s job none n'
  | stored {ses : Session} {ctx : Context} {sim : Simulator} {space : String} {w : Write}
      {l : Ledger} (found : n.session? s = some ses)
      (stores : n.Stores ses job ctx sim space w l) : Served n s job none
        ({ n with ledger := l }.modify s (·.reply job.kind (reply job.message (.ok []))))
  | parked {ses : Session} {ctx : Context} {p : ParkedRead} (found : n.session? s = some ses)
      (read : job.kind = .get) (itself : p.job = job)
      (free : job.message.key ∉ ses.transactions.markers)
      (registered : ses.transactions.find? job.message.channel job.message.tx = some p.context)
      (known : ses.transactions.context? p.context = some ctx)
      (right : ctx.simulator = some p.simulator) :
      Served n s job (some p)
        (n.modify s (·.claim job.message.key))

theorem served_serve (n : Node) (s : SessionId) (job : Job) :
    Served n s job (n.serve s job).1 (n.serve s job).2 := by
  cases found : n.session? s with
  | none =>
    simp only [serve, found]
    exact .done fun _ => .refl n
  | some ses =>
    have dealt : Dealt n s ses job (n.serve s job).1 (n.serve s job).2 := dealt_serve found job
    generalize n.serve s job = r at dealt ⊢
    obtain ⟨p, n'⟩ := r
    cases dealt with
    | dropped => exact .done fun _ => .refl _
    | answered free inside course => exact .done fun new => (course new).trans (course_reply ..)
    | stored stores => exact .stored found stores
    | parked read itself free registered known right =>
      exact .parked found read itself free registered known right
    | calling calls kind free found' on course => exact .done course

end Node

end ContractNode
