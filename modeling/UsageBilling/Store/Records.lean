import UsageBilling.Number.Decimal
import UsageBilling.Uuid
import UsageBilling.Validity

/-!
# Records of the store

The catalog has queries, products and discounts, each valid during an interval of time.  The
dimensions are tenants, categories and hours.  A fact is one quantity for an hour, a query and
the four dimensions of its sample.
-/

namespace UsageBilling

/-- A named metrics query. -/
structure Query where
  id : Uuid
  /-- The query that this one stands under. -/
  parentId : Option Uuid
  name : String
  description : String
  /-- The text sent to the metrics source. -/
  query : String
  unit : String
  during : Validity
  deriving DecidableEq

/-- A price, under a source that may hold wildcards. -/
structure Product where
  id : Uuid
  source : String
  /-- The article in the accounting system. -/
  target : Option String
  amount : Decimal
  unit : String
  during : Validity
  deriving DecidableEq

/-- A discount, under a source that may hold wildcards. -/
structure Discount where
  id : Uuid
  source : String
  /-- The fraction taken off the price, from 0 to 1. -/
  discount : Decimal
  during : Validity
  deriving DecidableEq

/-- An organisation. -/
structure Tenant where
  id : Uuid
  source : String
  target : Option String
  deriving DecidableEq

/-- A namespace of a zone. -/
structure Category where
  id : Uuid
  source : String
  target : Option String
  deriving DecidableEq

/-- A stored hour with its place in the calendar. -/
structure HourRecord where
  id : Uuid
  timestamp : Timestamp
  year : Int
  month : Int
  day : Int
  hour : Int
  deriving DecidableEq

/-- What identifies a fact. -/
structure FactKey where
  hourId : Uuid
  queryId : Uuid
  tenantId : Uuid
  categoryId : Uuid
  productId : Uuid
  discountId : Uuid
  deriving DecidableEq

/-- One hourly quantity. -/
structure Fact where
  id : Uuid
  key : FactKey
  quantity : Float
  deriving DecidableEq

/-- A query to be stored. -/
structure NewQuery where
  parentId : Option Uuid
  name : String
  description : String
  query : String
  unit : String
  during : Validity
  deriving DecidableEq

/-- A product to be stored. -/
structure NewProduct where
  source : String
  target : Option String
  amount : Decimal
  unit : String
  during : Validity
  deriving DecidableEq

/-- A discount to be stored. -/
structure NewDiscount where
  source : String
  discount : Decimal
  during : Validity
  deriving DecidableEq

/-- A record that lacks something invoicing needs. -/
structure MissingField where
  table : String
  id : Uuid
  source : String
  missingField : String
  deriving DecidableEq

/-- One group of the facts of a tenant's category in a month: a query, product and discount. -/
structure UsageGroup where
  queryId : Uuid
  parentQueryId : Option Uuid
  productId : Uuid
  discountId : Uuid
  description : String
  queryName : String
  /-- Sum, least, mean and greatest of the hourly quantities. -/
  quantity : Float
  quantityMin : Float
  quantityAvg : Float
  quantityMax : Float
  unit : String
  pricePerUnit : Decimal
  discount : Decimal
  productSource : String
  productTarget : String
  total : Decimal
  deriving DecidableEq

/-- The identifiers that the store and the accounting system have for a category. -/
structure CategoryMapping where
  source : String
  /-- Empty when unknown. -/
  target : String
  deriving DecidableEq

end UsageBilling
