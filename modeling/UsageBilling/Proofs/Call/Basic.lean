import UsageBilling.Invoice.Generate
import UsageBilling.Proofs.Report.Conformance
import UsageBilling.Reconcile
import UsageBilling.Store.Starter

/-!
# The calls of the library

A caller has the library open the transactions that an `Operation` needs, or makes a `Request` on a
connection of its own.

* `Operation.session`, `Request.session`, `Call.session` : what a call does.
* `Rule.Universal R` : the rule `R` has a place for every part that calls are made of.
* `Call.obeys` : all calls follow a universal rule.
-/

namespace UsageBilling

open Session

variable {σ α : Type}

/-! ### Calls -/

/-- What opens the transactions it needs. -/
inductive Operation where
  | run (o : ReportOptions) (name : String) (time : Timestamp)
  | runRange (o : ReportOptions) (name : String) (start stop : Timestamp)
  | generate (year : Int) (month : Nat)
  | reconcile

/-- What is done on the connection of the caller, inside the caller's transaction if there is
one. -/
inductive Request where
  | ingest (o : ReportOptions) (name : String) (time : Timestamp)
  | readMonth (month : BillingMonth)
  | seed
  | createQuery (new : NewQuery)
  | createProduct (new : NewProduct)
  | createDiscount (new : NewDiscount)
  | queryExists (name : String)
  | findQuery (name : String) (time : Timestamp)
  | subQueries (parent : Uuid) (time : Timestamp)
  | findProduct (keys : List String) (time : Timestamp)
  | findDiscount (keys : List String) (time : Timestamp)
  | upsertTenant (source : String)
  | upsertCategory (source : String)
  | upsertHour (bucket : HourBucket)
  | upsertFact (key : FactKey) (quantity : Float)
  | listCategories
  | setCategoryTarget (id : Uuid) (target : Option String)
  | missingFields

inductive Call where
  | operation (op : Operation)
  | request (r : Request)

/-- What an operation results in. -/
def Operation.Result : Operation → Type
  | run _ _ _ | runRange _ _ _ _ => Nat
  | generate _ _ => List Invoice
  | reconcile => ReconcileSummary

/-- What a request results in. -/
def Request.Result : Request → Type
  | ingest _ _ _ | setCategoryTarget _ _ => Nat
  | readMonth _ => List Invoice
  | seed => List String
  | createQuery _ | findQuery _ _ => Query
  | createProduct _ | findProduct _ _ => Product
  | createDiscount _ | findDiscount _ _ => Discount
  | queryExists _ => Bool
  | subQueries _ _ => List Query
  | upsertTenant _ => Tenant
  | upsertCategory _ => Category
  | upsertHour _ => HourRecord
  | upsertFact _ _ => Fact
  | listCategories => List Category
  | missingFields => List MissingField

def Operation.session : (op : Operation) → Session σ op.Result
  | run o name time => Report.run o name time
  | runRange o name start stop => Report.runRange o name start stop
  | generate year month => Invoice.generate year month
  | reconcile => Reconcile.categories

def Request.session : (r : Request) → Session σ r.Result
  | ingest o name time => Report.ingest o name time
  | readMonth month => Invoice.readMonth month
  | seed => Store.seed
  | createQuery new => Store.createQuery new
  | createProduct new => Store.createProduct new
  | createDiscount new => Store.createDiscount new
  | queryExists name => Store.queryExists name
  | findQuery name time => Store.findQuery name time
  | subQueries parent time => Store.subQueries parent time
  | findProduct keys time => Store.findProduct keys time
  | findDiscount keys time => Store.findDiscount keys time
  | upsertTenant source => Store.upsertTenant source
  | upsertCategory source => Store.upsertCategory source
  | upsertHour bucket => Store.upsertHour bucket
  | upsertFact key quantity => Store.upsertFact key quantity
  | listCategories => Store.listCategories
  | setCategoryTarget id target => Store.setCategoryTarget id target
  | missingFields => Store.missingFields

def Call.Result : Call → Type
  | operation op => op.Result
  | request r => r.Result

def Call.session : (call : Call) → Session σ call.Result
  | operation op => op.session
  | request r => r.session

/-! ### Reading a month -/

/-- Reading a month follows the rules that admit statements that change nothing. -/
theorem Invoice.obeys_readMonth {R : Rule} (hR : R.Composes)
    (h : ∀ {q : Statement}, q.isRead → R.Admits q) (month : BillingMonth) :
    Obeys (Invoice.readMonth month : Session σ (List Invoice)) R := by
  have hcategory (tenant : Tenant) (category : Category) :
      Obeys (Invoice.readCategory month tenant category : Session σ InvoiceCategory) R :=
    .bind hR (.fetchAll hR (h rfl)) fun _ => .inRange hR _
  have htenant (tenant : Tenant) :
      Obeys (Invoice.readTenant month tenant : Session σ Invoice) R :=
    .bind hR (.fetchAll hR (h rfl)) fun categories =>
    .bind hR (.mapM hR (hcategory tenant) categories) fun _ =>
    .bind hR (.inRange hR _) fun _ => .inRange hR _
  exact .bind hR (.fetchAll hR (h rfl)) fun tenants => .mapM hR htenant tenants

/-! ### Putting in the starter queries -/

theorem Store.obeys_seedEach {R : Rule} (hR : R.Composes)
    (hexists : ∀ name, R.Admits (.queryExists name)) (hcreate : ∀ new, R.Admits (.createQuery new))
    (queries : List StarterQuery) :
    Obeys (Store.seedEach queries : Session σ (List String)) R := by
  induction queries with
  | nil => exact .pure hR []
  | cons q rest ih =>
    refine .bind hR (Store.obeys_fetchFirst hR (hexists q.name)) fun known => ?_
    cases known with
    | true => exact ih
    | false =>
      exact .bind hR (Store.obeys_fetchFirst hR (hcreate q.toNewQuery)) fun _ =>
        .bind hR ih fun _ => .pure hR _

/-! ### Offers -/

namespace Reconcile

/-- An offer to the accounting system is one step. -/
theorem conforms_offer (c : Category) :
    Conforms (offer c : Session σ CategoryMapping) fun d => ∃ answer : Reconciliation,
      d = ⟨[.reconciliation c.mapping answer],
        answer.mapError fun causes => .failed (failure c.source causes), id⟩ := by
  intro env s
  rcases h : env.reconcile c.mapping s with ⟨answer, s'⟩
  have hanswered : (Event.reconciliation c.mapping answer).Answered env s s' := h
  refine ⟨_, s', ?_, .single hanswered, answer, rfl⟩
  intro trace metrics
  cases answer <;>
    simp [offer, runIn_bind, runIn_ask, h, Session.ofExcept, Except.mapError, -bind_pure_comp]

/-- Offering one category after the other follows the rules that have a place for offers and for the
transactions in which targets are written. -/
theorem obeys_each {R : Rule} (hR : R.Composes)
    (hoffer : ∀ mapping answer stop, R stop [.reconciliation mapping answer])
    (hset : ∀ id target, Obeys (Session.transaction .readWrite
      (Store.setCategoryTarget id target) : Session σ Nat) R) (categories : List Category) :
    Obeys (each categories : Session σ Nat) R := by
  induction categories with
  | nil => exact .pure hR 0
  | cons c rest ih =>
    have hanswer : Obeys (offer c : Session σ CategoryMapping) R := by
      refine (conforms_offer c).mono ?_
      rintro d ⟨answer, rfl⟩
      exact hoffer _ _ _
    refine .bind hR hanswer fun answer => ?_
    cases c.changedTarget? answer with
    | none => exact ih
    | some target => exact .bind hR (hset c.id target) fun _ => .map hR _ ih

end Reconcile

/-! ### Rules with a place for everything -/

/-- What a statement that inserts a record leads to when it finds no row twice. -/
def Statement.insertFailure? : Statement → Option String
  | upsertTenant source => some (Store.insertFailure "tenants" source)
  | upsertCategory source => some (Store.insertFailure "categories" source)
  | upsertHour bucket =>
    some (Store.insertFailure "date_times" (bucket.timestamp.rfc3339 "+00:00"))
  | _ => none

theorem insertFailure?_of_isRead {q : Statement} (h : q.isRead) : q.insertFailure? = none := by
  cases q with
  | upsertTenant | upsertCategory | upsertHour => cases h
  | _ => rfl

/-- A rule with a place for every part that calls are made of. -/
structure Rule.Universal (R : Rule) : Prop extends R.Composes where
  admits : ∀ {q : Statement}, q.insertFailure? = none → R.Admits q
  inserted : ∀ {α : Type} {read? : Row → Option α} {q : Statement} {text : String} {c : Course α},
    q.insertFailure? = some text → Store.Inserted read? q (.internal text) c → R c.stop? c.steps
  evaluation : ∀ text time answer stop, R stop [.evaluation text time answer]
  reconciliation : ∀ mapping answer stop, R stop [.reconciliation mapping answer]
  progress : ∀ time count, R none [.progress time count]
  control : ∀ k refusal stop, (∀ r, refusal = some r → stop = some (.failed r.toError)) →
    R stop [.control k refusal]
  rollback : ∀ stop steps, R (some stop) steps → R (some stop) (steps ++ [.rollback])
  abort : ∀ steps completed time stop, R (some stop) steps →
    R (some (Report.abortRange completed time stop)) steps

namespace Rule.Universal

variable {R : Rule} (hR : R.Universal)

include hR

theorem obeys_transaction {body : Session σ α} (access : Access) (h : Obeys body R) :
    Obeys (Session.transaction access body) R :=
  .transaction hR.toComposes hR.control hR.rollback access h

theorem obeys_insertOrSelect {read? : Row → Option α} {q : Statement} (table key : String)
    (h : q.insertFailure? = some (Store.insertFailure table key)) :
    Obeys (Store.insertOrSelect read? table key q : Session σ α) R :=
  (Store.conforms_insertOrSelect read? table key q).mono fun _ hc => hR.inserted h hc

theorem obeys_fetchFirst {read? : Row → Option α} {q : Statement} (h : q.insertFailure? = none) :
    Obeys (Session.fetchFirst read? q : Session σ α) R :=
  Store.obeys_fetchFirst hR.toComposes (hR.admits h)

theorem obeys_fetchAll {read? : Row → Option α} {q : Statement} (h : q.insertFailure? = none) :
    Obeys (Session.fetchAll read? q : Session σ (List α)) R :=
  .fetchAll hR.toComposes (hR.admits h)

/-! #### Reports -/

theorem obeys_ingestSample (query : Query) (hour : HourBucket) (sample : Sample) :
    Obeys (Report.ingestSample query hour sample : Session σ Unit) R :=
  have hC := hR.toComposes
  have hrecord {α : Type} (read? : Row → Option α) (table : CatalogTable) (keys : List String) :
      Obeys (Store.findRecord read? table keys hour.timestamp : Session σ α) R :=
    Store.obeys_orFail hC (hR.admits rfl) (fun _ => rfl) rfl
  have hstore (usage : Usage) : Obeys (Report.store query hour usage : Session σ Fact) R :=
    .bind hC (hR.obeys_insertOrSelect _ _ rfl) fun _ =>
    .bind hC (hR.obeys_insertOrSelect _ _ rfl) fun _ =>
    .bind hC (hrecord _ _ _) fun _ =>
    .bind hC (hrecord _ _ _) fun _ =>
    .bind hC (hR.obeys_insertOrSelect _ _ rfl) fun _ => hR.obeys_fetchFirst rfl
  .bind hC (.ofExcept hC id _) fun usage => .bind hC (hstore usage) fun _ => .pure hC ()

theorem obeys_ingestFamily (o : ReportOptions) (name : String) (time : Timestamp) :
    Obeys (Report.ingestFamily o name time : Session σ Nat) R :=
  Report.obeys_ingestFamily hR.toComposes hR.evaluation
    (fun query sample => hR.obeys_ingestSample query _ sample) (hR.admits rfl)
    fun _ => hR.admits rfl

theorem obeys_run (o : ReportOptions) (name : String) (time : Timestamp) :
    Obeys (Report.run o name time : Session σ Nat) R :=
  Report.obeys_run hR.toComposes
    (hR.obeys_transaction .readWrite (hR.obeys_ingestFamily o name time))

/-! #### Invoices, categories and the catalog -/

theorem obeys_readMonth (month : BillingMonth) :
    Obeys (Invoice.readMonth month : Session σ (List Invoice)) R :=
  Invoice.obeys_readMonth hR.toComposes (fun h => hR.admits (insertFailure?_of_isRead h)) month

theorem obeys_each (categories : List Category) :
    Obeys (Reconcile.each categories : Session σ Nat) R :=
  Reconcile.obeys_each hR.toComposes hR.reconciliation
    (fun _ _ => hR.obeys_transaction .readWrite (.countChanged hR.toComposes (hR.admits rfl)))
    categories

theorem obeys_seed : Obeys (Store.seed : Session σ (List String)) R :=
  Store.obeys_seedEach hR.toComposes (fun _ => hR.admits rfl) (fun _ => hR.admits rfl) _

/-! #### All calls -/

theorem obeys_operation (op : Operation) : Obeys (op.session : Session σ op.Result) R := by
  have hC := hR.toComposes
  cases op with
  | run o name time => exact hR.obeys_run o name time
  | runRange o name start stop =>
    exact Report.obeys_runRange hC hR.abort hR.progress (hR.obeys_run o name) start stop
  | generate year month =>
    show Obeys (Invoice.generate year month : Session σ (List Invoice)) R
    unfold Invoice.generate
    split
    · next m _ => exact hR.obeys_transaction .readOnly (hR.obeys_readMonth m)
    · exact .fail hC _
  | reconcile =>
    exact .bind hC (hR.obeys_transaction .readOnly (hR.obeys_fetchAll rfl)) fun all =>
      .bind hC (hR.obeys_each all) fun _ => .pure hC _

theorem obeys_request (r : Request) : Obeys (r.session : Session σ r.Result) R := by
  have hC := hR.toComposes
  cases r with
  | ingest o name time =>
    exact .bind hC (Report.obeys_requireHourStart hC time) fun _ =>
      hR.obeys_ingestFamily o name time
  | readMonth month => exact hR.obeys_readMonth month
  | seed => exact hR.obeys_seed
  | createQuery | createProduct | createDiscount | queryExists | upsertFact =>
    exact hR.obeys_fetchFirst rfl
  | findQuery | findProduct | findDiscount =>
    exact Store.obeys_orFail hC (hR.admits rfl) (fun _ => rfl) rfl
  | upsertTenant | upsertCategory | upsertHour => exact hR.obeys_insertOrSelect _ _ rfl
  | subQueries | listCategories | missingFields => exact hR.obeys_fetchAll rfl
  | setCategoryTarget => exact .countChanged hC (hR.admits rfl)

/-- **All calls follow a universal rule.** -/
theorem obeys_call (call : Call) : Obeys (call.session : Session σ call.Result) R := by
  cases call with
  | operation op => exact hR.obeys_operation op
  | request r => exact hR.obeys_request r

end Rule.Universal

end UsageBilling
