import UsageBilling.Session

/-!
# The catalog

Products and discounts are found by a list of source keys: the first key with a record that is
valid at the time decides.  A new record whose validity overlaps that of another version is refused
by the database.
-/

namespace UsageBilling.Store

variable {σ : Type}

/-- The query of a name that is valid at a time. -/
def findQuery (name : String) (time : Timestamp) : Session σ Query := do
  match ← Session.fetchFirst? Query.ofRow? (.findQuery name time) with
  | some q => pure q
  | none => Session.fail (.notFound (.query name time))

/-- The queries under a parent that are valid at a time. -/
def subQueries (parent : Uuid) (time : Timestamp) : Session σ (List Query) :=
  Session.fetchAll Query.ofRow? (.subQueries parent time)

/-- The record of a catalog table that the first fitting key has at a time. -/
def findRecord {α : Type} (read? : Row → Option α) (table : CatalogTable) (keys : List String)
    (time : Timestamp) : Session σ α := do
  match ← Session.fetchFirst? read? (.findRecord table keys time) with
  | some a => pure a
  | none => Session.fail (.notFound (.record table (keys.headD "") time))

/-- The price that the first fitting key has at a time. -/
def findProduct (keys : List String) (time : Timestamp) : Session σ Product :=
  findRecord Product.ofRow? .products keys time

/-- The discount that the first fitting key has at a time. -/
def findDiscount (keys : List String) (time : Timestamp) : Session σ Discount :=
  findRecord Discount.ofRow? .discounts keys time

/-- There is a query of the name, in any version. -/
def queryExists (name : String) : Session σ Bool :=
  Session.fetchFirst (fun row => (row.cell "exists").asBool?) (.queryExists name)

def createQuery (new : NewQuery) : Session σ Query :=
  Session.fetchFirst Query.ofRow? (.createQuery new)

def createProduct (new : NewProduct) : Session σ Product :=
  Session.fetchFirst Product.ofRow? (.createProduct new)

def createDiscount (new : NewDiscount) : Session σ Discount :=
  Session.fetchFirst Discount.ofRow? (.createDiscount new)

/-- The records that lack something invoicing needs. -/
def missingFields : Session σ (List MissingField) :=
  Session.fetchAll MissingField.ofRow? .missingFields

end UsageBilling.Store
