import UsageBilling.Store.RecordJson

/-!
# Invoices

An invoice covers one tenant and one month.  It has a category for each namespace the tenant
used, a category has priced items, and an item may have unpriced sub-items.  Totals roll up from
items to categories to the invoice; `none` stands for a total that no decimal holds.
-/

namespace UsageBilling

/-- A tenant and its identifier in the accounting system. -/
structure TenantRef where
  source : String
  target : String
  deriving DecidableEq

/-- A product and its article in the accounting system. -/
structure ProductRef where
  source : String
  target : String
  deriving DecidableEq

/-- Usage of a sub-query, without a price. -/
structure SubItem where
  description : String
  queryName : String
  quantity : Float
  quantityMin : Float
  quantityAvg : Float
  quantityMax : Float
  unit : String
  deriving DecidableEq

/-- A priced line. -/
structure Item where
  description : String
  queryName : String
  product : ProductRef
  quantity : Float
  quantityMin : Float
  quantityAvg : Float
  quantityMax : Float
  unit : String
  pricePerUnit : Decimal
  discount : Decimal
  total : Decimal
  subItems : List SubItem
  deriving DecidableEq

/-- The lines of one namespace. -/
structure InvoiceCategory where
  source : String
  target : String
  items : List Item
  total : Decimal
  deriving DecidableEq

/-- The invoice of a tenant for a month. -/
structure Invoice where
  tenant : TenantRef
  /-- Midnight at the start of the first day. -/
  periodStart : Timestamp
  /-- Midnight at the start of the last day. -/
  periodEnd : Timestamp
  categories : List InvoiceCategory
  total : Decimal
  deriving DecidableEq

/-- A category whose total is the sum of its items. -/
def InvoiceCategory.ofItems? (source target : String) (items : List Item) :
    Option InvoiceCategory :=
  (Decimal.sum? (items.map (·.total))).map fun total => ⟨source, target, items, total⟩

/-- An invoice whose total is the sum of its categories. -/
def Invoice.ofCategories? (tenant : TenantRef) (periodStart periodEnd : Timestamp)
    (categories : List InvoiceCategory) : Option Invoice :=
  (Decimal.sum? (categories.map (·.total))).map fun total =>
    ⟨tenant, periodStart, periodEnd, categories, total⟩

/-! ### JSON -/

namespace TenantRef

def toJson (t : TenantRef) : Json := .record [("source", .text t.source), ("target", .text t.target)]

def ofJson? (j : Json) : Option TenantRef := do
  let [source, target] ← Json.fields? ["source", "target"] j | none
  some ⟨← Json.required Json.asText? source, ← Json.required Json.asText? target⟩

end TenantRef

namespace ProductRef

def toJson (p : ProductRef) : Json := .record [("source", .text p.source), ("target", .text p.target)]

def ofJson? (j : Json) : Option ProductRef := do
  let [source, target] ← Json.fields? ["source", "target"] j | none
  some ⟨← Json.required Json.asText? source, ← Json.required Json.asText? target⟩

end ProductRef

namespace SubItem

def toJson (s : SubItem) : Json :=
  .record [("description", .text s.description), ("query_name", .text s.queryName),
    ("quantity", .float s.quantity), ("quantity_min", .float s.quantityMin),
    ("quantity_avg", .float s.quantityAvg), ("quantity_max", .float s.quantityMax),
    ("unit", .text s.unit)]

def ofJson? (j : Json) : Option SubItem := do
  let [description, queryName, quantity, quantityMin, quantityAvg, quantityMax, unit] ←
    Json.fields? ["description", "query_name", "quantity", "quantity_min", "quantity_avg",
      "quantity_max", "unit"] j | none
  some {
    description := ← Json.required Json.asText? description
    queryName := ← Json.required Json.asText? queryName
    quantity := ← Json.required Json.asFloat? quantity
    quantityMin := ← Json.required Json.asFloat? quantityMin
    quantityAvg := ← Json.required Json.asFloat? quantityAvg
    quantityMax := ← Json.required Json.asFloat? quantityMax
    unit := ← Json.required Json.asText? unit }

end SubItem

namespace Item

def toJson (i : Item) : Json :=
  .record [("description", .text i.description), ("query_name", .text i.queryName),
    ("product", i.product.toJson), ("quantity", .float i.quantity),
    ("quantity_min", .float i.quantityMin), ("quantity_avg", .float i.quantityAvg),
    ("quantity_max", .float i.quantityMax), ("unit", .text i.unit),
    ("price_per_unit", i.pricePerUnit.toJson), ("discount", i.discount.toJson),
    ("total", i.total.toJson), ("sub_items", .array (i.subItems.map SubItem.toJson))]

def ofJson? (j : Json) : Option Item := do
  let [description, queryName, product, quantity, quantityMin, quantityAvg, quantityMax, unit,
      pricePerUnit, discount, total, subItems] ←
    Json.fields? ["description", "query_name", "product", "quantity", "quantity_min",
      "quantity_avg", "quantity_max", "unit", "price_per_unit", "discount", "total",
      "sub_items"] j | none
  some {
    description := ← Json.required Json.asText? description
    queryName := ← Json.required Json.asText? queryName
    product := ← Json.required ProductRef.ofJson? product
    quantity := ← Json.required Json.asFloat? quantity
    quantityMin := ← Json.required Json.asFloat? quantityMin
    quantityAvg := ← Json.required Json.asFloat? quantityAvg
    quantityMax := ← Json.required Json.asFloat? quantityMax
    unit := ← Json.required Json.asText? unit
    pricePerUnit := ← Json.required Json.asDecimal? pricePerUnit
    discount := ← Json.required Json.asDecimal? discount
    total := ← Json.required Json.asDecimal? total
    subItems := ← Json.required (Json.asListOf? SubItem.ofJson?) subItems }

end Item

namespace InvoiceCategory

def toJson (c : InvoiceCategory) : Json :=
  .record [("source", .text c.source), ("target", .text c.target),
    ("items", .array (c.items.map Item.toJson)), ("total", c.total.toJson)]

def ofJson? (j : Json) : Option InvoiceCategory := do
  let [source, target, items, total] ← Json.fields? ["source", "target", "items", "total"] j | none
  some {
    source := ← Json.required Json.asText? source
    target := ← Json.required Json.asText? target
    items := ← Json.required (Json.asListOf? Item.ofJson?) items
    total := ← Json.required Json.asDecimal? total }

end InvoiceCategory

namespace Invoice

def toJson (i : Invoice) : Json :=
  .record [("tenant", i.tenant.toJson), ("period_start", i.periodStart.toJson),
    ("period_end", i.periodEnd.toJson),
    ("categories", .array (i.categories.map InvoiceCategory.toJson)), ("total", i.total.toJson)]

def ofJson? (j : Json) : Option Invoice := do
  let [tenant, periodStart, periodEnd, categories, total] ←
    Json.fields? ["tenant", "period_start", "period_end", "categories", "total"] j | none
  some {
    tenant := ← Json.required TenantRef.ofJson? tenant
    periodStart := ← Json.required Json.asTimestamp? periodStart
    periodEnd := ← Json.required Json.asTimestamp? periodEnd
    categories := ← Json.required (Json.asListOf? InvoiceCategory.ofJson?) categories
    total := ← Json.required Json.asDecimal? total }

end Invoice

end UsageBilling
