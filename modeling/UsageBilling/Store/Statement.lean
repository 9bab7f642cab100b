import UsageBilling.Calendar.BillingMonth
import UsageBilling.Calendar.Hour
import UsageBilling.Error
import UsageBilling.Store.Row

/-!
# Statements and replies

Everything the library asks of the database is a `Statement`, and the database answers each with a
`Reply`.  `Statement.isRead` tells the statements that change nothing.

On the way to the database an instant keeps its microseconds only (`Timestamp.storedParts`) and a
decimal of value zero loses its places and its sign (`Decimal.stored`).
-/

namespace UsageBilling

/-- A question to the database, or a change of its tables. -/
inductive Statement where
  /-- The query of a name that is valid at a time. -/
  | findQuery (name : String) (time : Timestamp)
  /-- The queries under a parent that are valid at a time, by name. -/
  | subQueries (parent : Uuid) (time : Timestamp)
  /-- The record of the first key that has one valid at a time. -/
  | findRecord (table : CatalogTable) (keys : List String) (time : Timestamp)
  /-- The tenant of a source, put in if it is new. -/
  | upsertTenant (source : String)
  /-- The category of a source, put in if it is new. -/
  | upsertCategory (source : String)
  /-- The record of an hour, put in if it is new. -/
  | upsertHour (bucket : HourBucket)
  /-- The fact of a key, put in or given a new quantity. -/
  | upsertFact (key : FactKey) (quantity : Float)
  /-- All categories, by source. -/
  | listCategories
  /-- Give a category a target, or none. -/
  | setCategoryTarget (id : Uuid) (target : Option String)
  /-- The tenants with facts in a month, by source. -/
  | monthTenants (month : BillingMonth)
  /-- The categories in which a tenant has facts in a month, by source. -/
  | monthCategories (month : BillingMonth) (tenant : Uuid)
  /-- The groups of the facts of a tenant and category in a month. -/
  | monthGroups (month : BillingMonth) (tenant category : Uuid)
  /-- Whether there is a query of a name. -/
  | queryExists (name : String)
  | createQuery (new : NewQuery)
  | createProduct (new : NewProduct)
  | createDiscount (new : NewDiscount)
  /-- All records that lack something invoicing needs. -/
  | missingFields
  deriving DecidableEq

/-- The statement changes nothing. -/
def Statement.isRead : Statement → Bool
  | findQuery _ _ | subQueries _ _ | findRecord _ _ _ | listCategories | monthTenants _
  | monthCategories _ _ | monthGroups _ _ _ | queryExists _ | missingFields => true
  | upsertTenant _ | upsertCategory _ | upsertHour _ | upsertFact _ _ | setCategoryTarget _ _
  | createQuery _ | createProduct _ | createDiscount _ => false

/-- The database refuses a statement. -/
structure Refusal where
  code : String
  message : String
  deriving DecidableEq

/-- The refusal as an error. -/
def Refusal.toError (r : Refusal) : BillingError := .storage (.database r.code r.message)

/-- What a statement that is not refused brings. -/
inductive Outcome where
  | rows (list : List Row)
  /-- A number of changed rows. -/
  | affected (count : Nat)
  deriving DecidableEq

namespace Outcome

/-- The rows, of which a bare count has none. -/
def toRows : Outcome → List Row
  | .rows list => list
  | .affected _ => []

/-- How many rows it is about. -/
def count : Outcome → Nat
  | .rows list => list.length
  | .affected n => n

end Outcome

/-- What the database answers to a statement. -/
abbrev Reply := Except Refusal Outcome

/-! ### What the database keeps -/

/-- The Unix seconds of 1 January 2000, from which the database counts. -/
def storeEpoch : Int := 946684800

/-- Unix seconds and nanoseconds of an instant as the database keeps it: in microseconds, what is
smaller is dropped towards the store's epoch. -/
def Timestamp.storedParts (t : Timestamp) : Int × Nat :=
  let micros := (((t.seconds - storeEpoch) * nanosPerSecond + t.nanos).tdiv 1000)
  (storeEpoch + micros / 1000000, (micros % 1000000).toNat * 1000)

end UsageBilling
