import UsageBilling.Proofs.Call.Basic
import UsageBilling.Proofs.Invoice.Reading

/-!
# The discipline of transactions

The trace of a session of operations falls into episodes.  An `Episode` begins and ends outside of
transactions: a transaction from its start to its commit or rollback, with nothing but statements
and queries inside, a transaction that could not be opened, an offer to the accounting system, or
the news of a completed hour.

* `Operation.Allows` : the episodes of an operation, with what its transactions may hold.
* `Operation.conforms` : each operation keeps to its episodes, however it ends.
* `Operation.runAll_episodes` : so does every session of operations, and a request takes no step but
  statements and queries.
-/

namespace UsageBilling

open Session

variable {σ α : Type}

/-! ### Episodes -/

/-- How an open transaction is closed. -/
inductive Closing where
  | committed
  /-- The commit is refused. -/
  | refused (r : Refusal)
  /-- There is nothing to commit. -/
  | givenUp

def Closing.steps : Closing → List Event
  | committed => [.control .commit none]
  | refused r => [.control .commit (some r), .rollback]
  | givenUp => [.rollback]

/-- A stretch of a trace that begins and ends outside of transactions. -/
inductive Episode where
  | notStarted (r : Refusal)
  /-- A transaction that could not be restricted to reading. -/
  | notRestricted (r : Refusal)
  | transaction (access : Access) (inner : List Event) (data : ∀ e ∈ inner, e.isData)
      (closing : Closing)
  | offered (mapping : CategoryMapping) (answer : Reconciliation)
  | told (time : Timestamp) (count : Nat)

namespace Episode

def steps : Episode → List Event
  | notStarted r => [.control .start (some r)]
  | notRestricted r => [.control .start none, .control .readOnly (some r), .rollback]
  | transaction access inner _ closing => opening access ++ inner ++ closing.steps
  | offered mapping answer => [.reconciliation mapping answer]
  | told time count => [.progress time count]

/-- A transaction of an access around steps that satisfy `Q`, or a failure to open one. -/
def Around (access : Access) (Q : List Event → Prop) : Episode → Prop
  | notStarted _ => True
  | notRestricted _ => access = .readOnly
  | transaction access' inner _ _ => access' = access ∧ Q inner
  | offered _ _ | told _ _ => False

/-- An offer to the accounting system. -/
def IsOffer (e : Episode) : Prop := ∃ mapping answer, e = offered mapping answer

/-- The news of a completed hour. -/
def IsNews (e : Episode) : Prop := ∃ time count, e = told time count

end Episode

/-- The steps fall into episodes of a kind. -/
def Episodes (p : Episode → Prop) : Rule := fun _ steps =>
  ∃ episodes : List Episode, (∀ e ∈ episodes, p e) ∧ steps = episodes.flatMap Episode.steps

theorem Episodes.composes (p : Episode → Prop) : (Episodes p).Composes where
  nil := fun _ => ⟨[], by simp, rfl⟩
  append := by
    rintro _ _ _ ⟨before, hbefore, rfl⟩ ⟨after, hafter, rfl⟩
    exact ⟨before ++ after, List.forall_mem_append.2 ⟨hbefore, hafter⟩, List.flatMap_append.symm⟩

theorem Episodes.single {p : Episode → Prop} {stop : Option Stop} {e : Episode} (h : p e) :
    Episodes p stop e.steps := ⟨[e], by simpa using h, by simp⟩

/-- There is at most one transaction, around steps that satisfy `Q`. -/
def AtMostOne (access : Access) (Q : List Event → Prop) (episodes : List Episode) : Prop :=
  episodes = [] ∨ ∃ e, episodes = [e] ∧ e.Around access Q

theorem AtMostOne.forall {access : Access} {Q : List Event → Prop} {episodes : List Episode}
    (h : AtMostOne access Q episodes) : ∀ e ∈ episodes, e.Around access Q := by
  rcases h with rfl | ⟨e, rfl, he⟩
  · simp
  · simpa using he

namespace Session

/-- Statements and queries only. -/
theorem Plain.conforms {x : Session σ α} (h : Plain x) {P : Course α → Prop} (hx : Conforms x P) :
    Conforms x fun c => (∀ e ∈ c.steps, e.isData) ∧ P c := by
  intro env s
  obtain ⟨c, s', htakes, hanswers, hc⟩ := hx env s
  exact ⟨c, s', htakes, hanswers, h.isData_of_takes htakes, hc⟩

/-- A transaction is one episode, or none if there is no connection. -/
theorem Plain.conforms_transaction {body : Session σ α} (h : Plain body) {Q : List Event → Prop}
    (hbody : Conforms body fun c => Q c.steps) (access : Access) :
    Conforms (transaction access body) fun c =>
      ∃ episodes, AtMostOne access Q episodes ∧ c.steps = episodes.flatMap Episode.steps := by
  refine (h.conforms hbody).transaction.mono ?_
  intro c hc
  have hone (e : Episode) (he : e.Around access Q) (hsteps : c.steps = e.steps) :
      ∃ episodes, AtMostOne access Q episodes ∧ c.steps = episodes.flatMap Episode.steps :=
    ⟨[e], .inr ⟨e, rfl, he⟩, by simpa using hsteps⟩
  cases hc with
  | unavailable => exact ⟨[], .inl rfl, rfl⟩
  | notStarted r => exact hone (.notStarted r) trivial rfl
  | notRestricted r haccess => exact hone (.notRestricted r) haccess rfl
  | @rolledBack inner e g hc =>
    exact hone (.transaction access inner hc.1 .givenUp) ⟨rfl, hc.2⟩ rfl
  | @notCommitted inner a g r hc =>
    exact hone (.transaction access inner hc.1 (.refused r)) ⟨rfl, hc.2⟩ rfl
  | @committed inner a g hc =>
    exact hone (.transaction access inner hc.1 .committed) ⟨rfl, hc.2⟩ rfl

/-- A transaction is made of episodes of a kind that such transactions are of. -/
theorem Plain.obeys_transaction {body : Session σ α} (h : Plain body) {Q : List Event → Prop}
    (hbody : Conforms body fun c => Q c.steps) {access : Access} {p : Episode → Prop}
    (hp : ∀ e : Episode, e.Around access Q → p e) :
    Obeys (transaction access body) (Episodes p) := by
  refine (h.conforms_transaction hbody access).mono ?_
  rintro c ⟨episodes, hone, hsteps⟩
  exact ⟨episodes, fun e he => hp e (hone.forall e he), hsteps⟩

end Session

/-! ### What transactions hold -/

/-- Facts are written for the hour that starts at a time, and for no other: every hour that is put
in is that one, and the hour of a fact comes from a reply to that. -/
structure OfHour (time : Timestamp) (steps : List Event) : Prop where
  hours : ∀ bucket reply, .statement (.upsertHour bucket) reply ∈ steps →
    bucket = ⟨time, time.date.1, time.date.2.1, time.date.2.2, time.hour⟩
  facts : ∀ key quantity reply, .statement (.upsertFact key quantity) reply ∈ steps →
    ∃ (reply' : Reply) (hour : HourRecord),
      .statement (.upsertHour ⟨time, time.date.1, time.date.2.1, time.date.2.2, time.hour⟩)
          reply' ∈ steps ∧
        reply'.first? HourRecord.ofRow? = some hour ∧ key.hourId = hour.id

/-- Statements that read, and nothing else. -/
def OnlyReads (steps : List Event) : Prop :=
  ∀ e ∈ steps, ∃ q reply, e = .statement q reply ∧ q.isRead

/-- One statement, which gives a category a target. -/
def UpdatesCategory (steps : List Event) : Prop :=
  ∃ id target reply, steps = [.statement (.setCategoryTarget id target) reply]

namespace OfHour

variable {time : Timestamp}

theorem composes (time : Timestamp) : Rule.Composes fun _ steps => OfHour time steps where
  nil := fun _ => ⟨by simp, by simp⟩
  append := by
    intro steps steps' _ h h'
    constructor
    · intro bucket reply hmem
      exact (List.mem_append.1 hmem).elim (h.hours bucket reply) (h'.hours bucket reply)
    · intro key quantity reply hmem
      rcases List.mem_append.1 hmem with hmem | hmem
      · obtain ⟨reply', hour, hhour, hfirst, hkey⟩ := h.facts key quantity reply hmem
        exact ⟨reply', hour, List.mem_append_left _ hhour, hfirst, hkey⟩
      · obtain ⟨reply', hour, hhour, hfirst, hkey⟩ := h'.facts key quantity reply hmem
        exact ⟨reply', hour, List.mem_append_right _ hhour, hfirst, hkey⟩

/-- Steps that are neither about hours nor about facts. -/
theorem of_forall {steps : List Event}
    (h : ∀ e ∈ steps, ∀ q reply, e = .statement q reply →
      (∀ bucket, q ≠ .upsertHour bucket) ∧ ∀ key quantity, q ≠ .upsertFact key quantity) :
    OfHour time steps where
  hours := fun bucket _ hmem => absurd rfl ((h _ hmem _ _ rfl).1 bucket)
  facts := fun key quantity _ hmem => absurd rfl ((h _ hmem _ _ rfl).2 key quantity)

theorem admits {q : Statement} (hhour : ∀ bucket, q ≠ .upsertHour bucket)
    (hfact : ∀ key quantity, q ≠ .upsertFact key quantity) :
    Rule.Admits (fun _ steps => OfHour time steps) q := by
  intro reply stop _
  refine of_forall fun e he q' reply' heq => ?_
  obtain rfl := List.mem_singleton.1 he
  obtain ⟨rfl, rfl⟩ := Event.statement.inj heq
  exact ⟨hhour, hfact⟩

/-- Putting in the hour itself. -/
theorem of_inserted {failure : BillingError} {c : Course HourRecord}
    (h : Store.Inserted HourRecord.ofRow? (.upsertHour (.ofTimestamp time)) failure c) :
    OfHour time c.steps where
  hours := by
    intro bucket reply hmem
    obtain ⟨reply', heq⟩ := h.mem_steps hmem
    cases heq
    rfl
  facts := by
    intro key quantity reply hmem
    obtain ⟨reply', heq⟩ := h.mem_steps hmem
    cases heq

/-- The hour of a fact is the record that the statement before it brought. -/
theorem obeys_writeFact (key : HourRecord → FactKey) (hkey : ∀ hour, (key hour).hourId = hour.id)
    (quantity : Float) :
    Obeys (Store.upsertHour (.ofTimestamp time) >>= fun hour =>
      (Store.upsertFact (key hour) quantity : Session σ Fact))
      fun _ steps => OfHour time steps := by
  refine Conforms.bind (Store.conforms_insertOrSelect _ _ _ _) (fun steps hour g hc => ?_)
    fun _ _ _ hc => of_inserted hc
  have hinserted : OfHour time steps := of_inserted hc
  obtain ⟨reply', hmem', hfirst⟩ := hc.exists_first
  have hfact : Obeys (Store.upsertFact (key hour) quantity : Session σ Fact) fun _ steps =>
      ∀ e ∈ steps, ∃ reply, e = .statement (.upsertFact (key hour) quantity) reply :=
    Store.obeys_fetchFirst (Rule.composes_forall _) fun reply _ _ e he =>
      ⟨reply, List.mem_singleton.1 he⟩
  refine hfact.mono fun d hd => ⟨fun bucket reply hmem => ?_, fun key' quantity' reply hmem => ?_⟩
  · rcases List.mem_append.1 hmem with hmem | hmem
    · exact hinserted.hours bucket reply hmem
    · obtain ⟨_, heq⟩ := hd _ hmem
      cases heq
  · rcases List.mem_append.1 hmem with hmem | hmem
    · obtain ⟨reply'', hour', hmem'', hfirst', hkey'⟩ := hinserted.facts key' quantity' reply hmem
      exact ⟨reply'', hour', List.mem_append_left _ hmem'', hfirst', hkey'⟩
    · obtain ⟨_, heq⟩ := hd _ hmem
      cases heq
      exact ⟨reply', hour, List.mem_append_left _ hmem', hfirst, hkey hour⟩

theorem obeys_ingestSample (query : Query) (sample : Sample) :
    Obeys (Report.ingestSample query (.ofTimestamp time) sample : Session σ Unit)
      fun _ steps => OfHour time steps :=
  have hC := composes time
  .bind hC (.ofExcept hC id _) fun usage =>
  .bind hC (.bind hC (Store.obeys_insertOrSelect hC (admits (by simp) (by simp)) _ _) fun tenant =>
    .bind hC (Store.obeys_insertOrSelect hC (admits (by simp) (by simp)) _ _) fun category =>
    .bind hC (Store.obeys_orFail hC (admits (by simp) (by simp)) (fun _ => rfl) rfl) fun product =>
    .bind hC (Store.obeys_orFail hC (admits (by simp) (by simp)) (fun _ => rfl) rfl) fun discount =>
    obeys_writeFact (fun hour =>
      ⟨hour.id, query.id, tenant.id, category.id, product.id, discount.id⟩) (fun _ => rfl)
      usage.quantity) fun _ => .pure hC ()

theorem conforms_ingestFamily (o : ReportOptions) (name : String) :
    Conforms (Report.ingestFamily o name time : Session σ Nat) fun c => OfHour time c.steps :=
  Report.obeys_ingestFamily (composes time)
    (fun _ _ _ _ => of_forall (by simp)) obeys_ingestSample (admits (by simp) (by simp))
    fun _ => admits (by simp) (by simp)

end OfHour

/-! ### The episodes of each operation -/

namespace Operation

/-- The episodes of an operation. -/
def Allows : Operation → List Episode → Prop
  | run _ _ time, episodes => AtMostOne .readWrite (OfHour time) episodes
  | runRange _ _ _ _, episodes =>
    ∀ e ∈ episodes, e.IsNews ∨ ∃ time, e.Around .readWrite (OfHour time)
  | generate _ _, episodes => AtMostOne .readOnly OnlyReads episodes
  | reconcile, episodes => ∃ listing rest, episodes = listing ++ rest ∧
      AtMostOne .readOnly OnlyReads listing ∧
      ∀ e ∈ rest, e.IsOffer ∨ e.Around .readWrite UpdatesCategory

theorem conforms_run (o : ReportOptions) (name : String) (time : Timestamp) :
    Conforms (Report.run o name time : Session σ Nat) fun c => ∃ episodes,
      AtMostOne .readWrite (OfHour time) episodes ∧ c.steps = episodes.flatMap Episode.steps := by
  have htransaction : Conforms (Report.counted o
      (transaction .readWrite (Report.ingestFamily o name time)) : Session σ Nat) fun c =>
      ∃ episodes, AtMostOne .readWrite (OfHour time) episodes ∧
        c.steps = episodes.flatMap Episode.steps := by
    refine (Report.conforms_counted ((Report.plain_ingestFamily o name time).conforms_transaction
      (OfHour.conforms_ingestFamily o name) .readWrite)).mono ?_
    rintro c ⟨d, hd, rfl⟩
    exact hd
  unfold Report.run Report.requireHourStart
  split
  · exact htransaction
  · exact .stop ⟨[], .inl rfl, rfl⟩

theorem obeys_runRange (o : ReportOptions) (name : String) (start stop : Timestamp) :
    Obeys (Report.runRange o name start stop : Session σ Nat)
      (Episodes fun e => e.IsNews ∨ ∃ time, e.Around .readWrite (OfHour time)) := by
  refine Report.obeys_runRange (Episodes.composes _) (fun _ _ _ _ h => h)
    (fun time count => .single (e := .told time count) (.inl ⟨time, count, rfl⟩)) (fun time => ?_)
    start stop
  refine (conforms_run o name time).mono ?_
  rintro c ⟨episodes, hone, hsteps⟩
  exact ⟨episodes, fun e he => .inr ⟨time, hone.forall e he⟩, hsteps⟩

theorem conforms_readMonth (month : BillingMonth) :
    Conforms (Invoice.readMonth month : Session σ (List Invoice)) fun c => OnlyReads c.steps :=
  Invoice.obeys_readMonth (Rule.composes_forall _)
    (fun {q} hread reply _ _ _ he => ⟨q, reply, List.mem_singleton.1 he, hread⟩) month

theorem conforms_listCategories :
    Conforms (Store.listCategories : Session σ (List Category)) fun c => OnlyReads c.steps :=
  fun _ _ => ⟨_, _, takes_fetchAll rfl, .single rfl, fun _ he =>
    ⟨_, _, List.mem_singleton.1 he, rfl⟩⟩

theorem conforms_setCategoryTarget (id : Uuid) (target : Option String) :
    Conforms (Store.setCategoryTarget id target : Session σ Nat) fun c =>
      UpdatesCategory c.steps := by
  unfold Store.setCategoryTarget countChanged
  rw [map_eq_pure_bind]
  refine (Conforms.execute _).bind (fun steps n g hc => .pure ?_) fun steps e g hc => ?_
  · obtain ⟨reply, hc⟩ := hc
    exact ⟨id, target, reply, by simpa [Course.after] using congrArg Course.steps hc⟩
  · obtain ⟨reply, hc⟩ := hc
    exact ⟨id, target, reply, congrArg Course.steps hc⟩

theorem obeys_each (categories : List Category) :
    Obeys (Reconcile.each categories : Session σ Nat)
      (Episodes fun e => e.IsOffer ∨ e.Around .readWrite UpdatesCategory) := by
  refine Reconcile.obeys_each (Episodes.composes _)
    (fun mapping answer _ => .single (e := .offered mapping answer) (.inl ⟨_, _, rfl⟩))
    (fun id target => ?_) categories
  have hset : Plain (Store.setCategoryTarget id target : Session σ Nat) := .map _ (.execute _)
  exact hset.obeys_transaction (conforms_setCategoryTarget id target) fun _ => .inr

/-- **Each operation keeps to its episodes**, whatever the outside answers. -/
theorem conforms (op : Operation) :
    Conforms (op.session : Session σ op.Result) fun c =>
      ∃ episodes, op.Allows episodes ∧ c.steps = episodes.flatMap Episode.steps := by
  cases op with
  | run o name time => exact conforms_run o name time
  | runRange o name start stop => exact obeys_runRange o name start stop
  | generate year month =>
    show Conforms (Invoice.generate year month : Session σ (List Invoice)) _
    unfold Invoice.generate
    split
    · next m _ =>
      exact (Invoice.plain_readMonth m).conforms_transaction (conforms_readMonth m) .readOnly
    · exact .stop ⟨[], .inl rfl, rfl⟩
  | reconcile =>
    refine Conforms.bind ((Plain.fetchAll _ _).conforms_transaction conforms_listCategories
      .readOnly) (fun steps all g hc => ?_) fun steps e g hc => ?_
    · obtain ⟨listing, hlisting, rfl⟩ := hc
      refine (Obeys.bind (Episodes.composes _) (obeys_each all) fun _ =>
        .pure (Episodes.composes _) _).mono ?_
      rintro d ⟨rest, hrest, hsteps⟩
      refine ⟨listing ++ rest, ⟨listing, rest, rfl, hlisting, hrest⟩, ?_⟩
      simp [Course.after, hsteps]
    · obtain ⟨listing, hlisting, rfl⟩ := hc
      exact ⟨listing, ⟨listing, [], by simp, hlisting, by simp⟩, rfl⟩

end Operation

/-! ### Requests -/

theorem Request.plain (r : Request) : Plain (r.session : Session σ r.Result) := by
  have hseed (queries : List StarterQuery) :
      Plain (Store.seedEach queries : Session σ (List String)) := by
    induction queries with
    | nil => exact .pure []
    | cons q rest ih =>
      refine .bind (Store.plain_orFail (fun _ => rfl) rfl) fun known => ?_
      cases known with
      | true => exact ih
      | false =>
        exact .bind (Store.plain_orFail (fun _ => rfl) rfl) fun _ => .bind ih fun _ => .pure _
  cases r with
  | ingest o name time => exact Report.plain_ingest o name time
  | readMonth month => exact Invoice.plain_readMonth month
  | seed => exact hseed _
  | createQuery | createProduct | createDiscount | queryExists | upsertFact | findQuery
  | findProduct | findDiscount => exact Store.plain_orFail (fun _ => rfl) rfl
  | upsertTenant | upsertCategory | upsertHour => exact Store.plain_insertOrSelect _ _ _ _
  | subQueries | listCategories | missingFields => exact .fetchAll _ _
  | setCategoryTarget => exact .map _ (.execute _)

/-! ### Sessions of operations -/

/-- Carry out operations one after the other, each in some state of the outside; a failure does not
keep the next from being carried out. -/
def Operation.runAll (env : Environment σ) (w : World σ) : List (σ × Operation) → World σ
  | [] => w
  | (s, op) :: rest => runAll env (runIn env { w with outside := s } op.session).2 rest

/-- **Transactions never nest and never stay open.**  The trace of a session of operations falls
into episodes, part by part those of each operation.  What a request does on the connection of its
caller is no matter of transactions at all. -/
theorem Operation.runAll_episodes (env : Environment σ) :
    (∀ (w : World σ) (session : List (σ × Operation)), ∃ parts : List (List Episode),
      List.Forall₂ (fun entry part => entry.2.Allows part) session parts ∧
        (runAll env w session).trace = w.trace ++ parts.flatten.flatMap Episode.steps) ∧
    ∀ (r : Request) (s : σ), ∃ c s', Takes env s r.session c s' ∧ ∀ e ∈ c.steps, e.isData := by
  constructor
  · intro w session
    induction session generalizing w with
    | nil => exact ⟨[], .nil, by simp [runAll]⟩
    | cons entry rest ih =>
      obtain ⟨s, op⟩ := entry
      obtain ⟨c, s', htakes, -, part, hpart, hsteps⟩ := op.conforms env s
      have hrun := htakes w.trace w.metrics
      obtain ⟨parts, hparts, htrace⟩ := ih (runIn env { w with outside := s } op.session).2
      refine ⟨part :: parts, .cons hpart hparts, ?_⟩
      rw [runAll, htrace, hrun, hsteps]
      simp
  · intro r s
    obtain ⟨c, s', hanswers, hleads, hdata⟩ := r.plain.course env s
    exact ⟨c, s', hleads env s s' hanswers, hdata⟩

end UsageBilling
