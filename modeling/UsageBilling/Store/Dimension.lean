import UsageBilling.Session

/-!
# Dimensions and facts

Tenants, categories and hours are put in when they are first seen.  A record that is there is
given back as it is.  When another session puts the same record in at the same moment, the
database may give back nothing; the statement is then repeated once (`Store.insertOrSelect`).
-/

namespace UsageBilling.Store

variable {σ α : Type}

/-- The record of a dimension, after one more try if the first brings none. -/
def insertOrSelect (read? : Row → Option α) (table key : String) (s : Statement) :
    Session σ α := do
  match ← Session.fetchFirst? read? s with
  | some a => pure a
  | none =>
    -- the record is there by now, and the second try gives it back
    match ← Session.fetchFirst? read? s with
    | some a => pure a
    | none => Session.fail (.internal s!"upsert of {table} '{key}' returned no row")

/-- The tenant of a source. -/
def upsertTenant (source : String) : Session σ Tenant :=
  insertOrSelect Tenant.ofRow? "tenants" source (.upsertTenant source)

/-- The category of a source. -/
def upsertCategory (source : String) : Session σ Category :=
  insertOrSelect Category.ofRow? "categories" source (.upsertCategory source)

/-- The record of an hour. -/
def upsertHour (bucket : HourBucket) : Session σ HourRecord :=
  insertOrSelect HourRecord.ofRow? "date_times" (bucket.timestamp.rfc3339 "+00:00")
    (.upsertHour bucket)

/-- The fact of a key, with a new quantity. -/
def upsertFact (key : FactKey) (quantity : Float) : Session σ Fact :=
  Session.fetchFirst Fact.ofRow? (.upsertFact key quantity)

/-- All categories. -/
def listCategories : Session σ (List Category) :=
  Session.fetchAll Category.ofRow? .listCategories

/-- Give a category a target, or none: the number of categories changed. -/
def setCategoryTarget (id : Uuid) (target : Option String) : Session σ Nat :=
  Session.countChanged (.setCategoryTarget id target)

end UsageBilling.Store
