import UsageBilling.Store.Records

/-!
# Rows of the database

A row gives a cell for each of its columns; a column it does not have is null.  Each record has an
`ofRow?`, which fails if a cell does not fit its field: a null where the field is not optional, a
range that is no validity interval, a decimal that is not a number.
-/

namespace UsageBilling

/-- A value in a column. -/
inductive Cell where
  | null
  | text (s : String)
  | uuid (u : Uuid)
  | bool (b : Bool)
  | int (n : Int)
  | float (x : Float)
  | decimal (d : Decimal)
  /-- The decimal that is not a number. -/
  | notANumber
  | timestamp (t : Timestamp)
  | range (r : TimeRange)
  deriving DecidableEq

namespace Cell

def asText? : Cell → Option String
  | text s => some s
  | _ => none

def asUuid? : Cell → Option Uuid
  | uuid u => some u
  | _ => none

def asBool? : Cell → Option Bool
  | bool b => some b
  | _ => none

def asInt? : Cell → Option Int
  | int n => some n
  | _ => none

def asFloat? : Cell → Option Float
  | float x => some x
  | _ => none

/-- A decimal, of which zero has no places. -/
def asDecimal? : Cell → Option Decimal
  | decimal d => some d.stored
  | _ => none

def asTimestamp? : Cell → Option Timestamp
  | timestamp t => some t
  | _ => none

/-- A range that is a validity interval. -/
def asValidity? : Cell → Option Validity
  | range r => Validity.ofRange? r
  | _ => none

/-- A cell that may be null. -/
def nullable {α : Type} (read? : Cell → Option α) : Cell → Option (Option α)
  | null => some none
  | c => (read? c).map some

end Cell

/-- The cells of a row by the names of their columns. -/
abbrev Row := List (String × Cell)

/-- The cell of a column. -/
def Row.cell (row : Row) (column : String) : Cell := (row.lookup column).getD .null

def Query.ofRow? (row : Row) : Option Query := do
  some {
    id := ← (row.cell "id").asUuid?
    parentId := ← (row.cell "parent_id").nullable Cell.asUuid?
    name := ← (row.cell "name").asText?
    description := ← (row.cell "description").asText?
    query := ← (row.cell "query").asText?
    unit := ← (row.cell "unit").asText?
    during := ← (row.cell "during").asValidity? }

def Product.ofRow? (row : Row) : Option Product := do
  some {
    id := ← (row.cell "id").asUuid?
    source := ← (row.cell "source").asText?
    target := ← (row.cell "target").nullable Cell.asText?
    amount := ← (row.cell "amount").asDecimal?
    unit := ← (row.cell "unit").asText?
    during := ← (row.cell "during").asValidity? }

def Discount.ofRow? (row : Row) : Option Discount := do
  some {
    id := ← (row.cell "id").asUuid?
    source := ← (row.cell "source").asText?
    discount := ← (row.cell "discount").asDecimal?
    during := ← (row.cell "during").asValidity? }

def Tenant.ofRow? (row : Row) : Option Tenant := do
  some {
    id := ← (row.cell "id").asUuid?
    source := ← (row.cell "source").asText?
    target := ← (row.cell "target").nullable Cell.asText? }

def Category.ofRow? (row : Row) : Option Category := do
  some {
    id := ← (row.cell "id").asUuid?
    source := ← (row.cell "source").asText?
    target := ← (row.cell "target").nullable Cell.asText? }

def HourRecord.ofRow? (row : Row) : Option HourRecord := do
  some {
    id := ← (row.cell "id").asUuid?
    timestamp := ← (row.cell "timestamp").asTimestamp?
    year := ← (row.cell "year").asInt?
    month := ← (row.cell "month").asInt?
    day := ← (row.cell "day").asInt?
    hour := ← (row.cell "hour").asInt? }

def Fact.ofRow? (row : Row) : Option Fact := do
  some {
    id := ← (row.cell "id").asUuid?
    key := {
      hourId := ← (row.cell "date_time_id").asUuid?
      queryId := ← (row.cell "query_id").asUuid?
      tenantId := ← (row.cell "tenant_id").asUuid?
      categoryId := ← (row.cell "category_id").asUuid?
      productId := ← (row.cell "product_id").asUuid?
      discountId := ← (row.cell "discount_id").asUuid? }
    quantity := ← (row.cell "quantity").asFloat? }

def MissingField.ofRow? (row : Row) : Option MissingField := do
  some {
    table := ← (row.cell "table").asText?
    id := ← (row.cell "id").asUuid?
    source := ← (row.cell "source").asText?
    missingField := ← (row.cell "missing_field").asText? }

def UsageGroup.ofRow? (row : Row) : Option UsageGroup := do
  some {
    queryId := ← (row.cell "query_id").asUuid?
    parentQueryId := ← (row.cell "parent_query_id").nullable Cell.asUuid?
    productId := ← (row.cell "product_id").asUuid?
    discountId := ← (row.cell "discount_id").asUuid?
    description := ← (row.cell "description").asText?
    queryName := ← (row.cell "query_name").asText?
    quantity := ← (row.cell "quantity").asFloat?
    quantityMin := ← (row.cell "quantity_min").asFloat?
    quantityAvg := ← (row.cell "quantity_avg").asFloat?
    quantityMax := ← (row.cell "quantity_max").asFloat?
    unit := ← (row.cell "unit").asText?
    pricePerUnit := ← (row.cell "price_per_unit").asDecimal?
    discount := ← (row.cell "discount").asDecimal?
    productSource := ← (row.cell "product_source").asText?
    productTarget := ← (row.cell "product_target").asText?
    total := ← (row.cell "total").asDecimal? }

end UsageBilling
