import UsageBilling.Json.Record
import UsageBilling.SourceKey
import UsageBilling.Store.Records

/-!
# Records of the store in JSON

Each record has a `toJson` and an `ofJson?`; the fields stand in their declared order.
-/

namespace UsageBilling

namespace SourceKey

def toJson (k : SourceKey) : Json :=
  .record [("query", .text k.query), ("zone", .text k.zone), ("tenant", .text k.tenant),
    ("namespace", .text k.namespaceName), ("class", .text k.className)]

def ofJson? (j : Json) : Option SourceKey := do
  let [query, zone, tenant, namespaceName, className] ←
    Json.fields? ["query", "zone", "tenant", "namespace", "class"] j | none
  some {
    query := ← Json.required Json.asText? query
    zone := ← Json.required Json.asText? zone
    tenant := ← Json.required Json.asText? tenant
    namespaceName := ← Json.required Json.asText? namespaceName
    className := ← Json.required Json.asText? className }

end SourceKey

/-- An instant in JSON. -/
def Timestamp.toJson (t : Timestamp) : Json := .text (t.rfc3339 "Z")

/-- An identifier in JSON. -/
def Uuid.toJson (u : Uuid) : Json := .text u.render

/-- A decimal in JSON. -/
def Decimal.toJson (d : Decimal) : Json := .text d.render

namespace Validity

def toJson (v : Validity) : Json :=
  .record [("start", .optional Timestamp.toJson v.start), ("end", .optional Timestamp.toJson v.stop)]

def ofJson? (j : Json) : Option Validity := do
  let [start, stop] ← Json.fields? ["start", "end"] j | none
  some ⟨← Json.nullable Json.asTimestamp? start, ← Json.nullable Json.asTimestamp? stop⟩

end Validity

namespace Query

def toJson (q : Query) : Json :=
  .record [("id", q.id.toJson), ("parent_id", .optional Uuid.toJson q.parentId),
    ("name", .text q.name), ("description", .text q.description), ("query", .text q.query),
    ("unit", .text q.unit), ("during", q.during.toJson)]

def ofJson? (j : Json) : Option Query := do
  let [id, parentId, name, description, query, unit, during] ←
    Json.fields? ["id", "parent_id", "name", "description", "query", "unit", "during"] j | none
  some {
    id := ← Json.required Json.asUuid? id
    parentId := ← Json.nullable Json.asUuid? parentId
    name := ← Json.required Json.asText? name
    description := ← Json.required Json.asText? description
    query := ← Json.required Json.asText? query
    unit := ← Json.required Json.asText? unit
    during := ← Json.required Validity.ofJson? during }

end Query

namespace Product

def toJson (p : Product) : Json :=
  .record [("id", p.id.toJson), ("source", .text p.source), ("target", .optional .text p.target),
    ("amount", p.amount.toJson), ("unit", .text p.unit), ("during", p.during.toJson)]

def ofJson? (j : Json) : Option Product := do
  let [id, source, target, amount, unit, during] ←
    Json.fields? ["id", "source", "target", "amount", "unit", "during"] j | none
  some {
    id := ← Json.required Json.asUuid? id
    source := ← Json.required Json.asText? source
    target := ← Json.nullable Json.asText? target
    amount := ← Json.required Json.asDecimal? amount
    unit := ← Json.required Json.asText? unit
    during := ← Json.required Validity.ofJson? during }

end Product

namespace Discount

def toJson (d : Discount) : Json :=
  .record [("id", d.id.toJson), ("source", .text d.source), ("discount", d.discount.toJson),
    ("during", d.during.toJson)]

def ofJson? (j : Json) : Option Discount := do
  let [id, source, discount, during] ←
    Json.fields? ["id", "source", "discount", "during"] j | none
  some {
    id := ← Json.required Json.asUuid? id
    source := ← Json.required Json.asText? source
    discount := ← Json.required Json.asDecimal? discount
    during := ← Json.required Validity.ofJson? during }

end Discount

/-- A tenant in JSON. -/
def Tenant.toJson (t : Tenant) : Json :=
  .record [("id", t.id.toJson), ("source", .text t.source), ("target", .optional .text t.target)]

namespace Category

def toJson (c : Category) : Json :=
  .record [("id", c.id.toJson), ("source", .text c.source), ("target", .optional .text c.target)]

def ofJson? (j : Json) : Option Category := do
  let [id, source, target] ← Json.fields? ["id", "source", "target"] j | none
  some {
    id := ← Json.required Json.asUuid? id
    source := ← Json.required Json.asText? source
    target := ← Json.nullable Json.asText? target }

end Category

namespace HourRecord

def toJson (h : HourRecord) : Json :=
  .record [("id", h.id.toJson), ("timestamp", h.timestamp.toJson), ("year", .int h.year),
    ("month", .int h.month), ("day", .int h.day), ("hour", .int h.hour)]

def ofJson? (j : Json) : Option HourRecord := do
  let [id, timestamp, year, month, day, hour] ←
    Json.fields? ["id", "timestamp", "year", "month", "day", "hour"] j | none
  some {
    id := ← Json.required Json.asUuid? id
    timestamp := ← Json.required Json.asTimestamp? timestamp
    year := ← Json.required Json.asInt32? year
    month := ← Json.required Json.asInt32? month
    day := ← Json.required Json.asInt32? day
    hour := ← Json.required Json.asInt32? hour }

end HourRecord

namespace Fact

def toJson (f : Fact) : Json :=
  .record [("id", f.id.toJson), ("date_time_id", f.key.hourId.toJson),
    ("query_id", f.key.queryId.toJson), ("tenant_id", f.key.tenantId.toJson),
    ("category_id", f.key.categoryId.toJson), ("product_id", f.key.productId.toJson),
    ("discount_id", f.key.discountId.toJson), ("quantity", .float f.quantity)]

def ofJson? (j : Json) : Option Fact := do
  let [id, hourId, queryId, tenantId, categoryId, productId, discountId, quantity] ←
    Json.fields? ["id", "date_time_id", "query_id", "tenant_id", "category_id", "product_id",
      "discount_id", "quantity"] j | none
  some {
    id := ← Json.required Json.asUuid? id
    key := {
      hourId := ← Json.required Json.asUuid? hourId
      queryId := ← Json.required Json.asUuid? queryId
      tenantId := ← Json.required Json.asUuid? tenantId
      categoryId := ← Json.required Json.asUuid? categoryId
      productId := ← Json.required Json.asUuid? productId
      discountId := ← Json.required Json.asUuid? discountId }
    quantity := ← Json.required Json.asFloat? quantity }

end Fact

/-- A record with a gap in JSON. -/
def MissingField.toJson (m : MissingField) : Json :=
  .record [("table", .text m.table), ("id", m.id.toJson), ("source", .text m.source),
    ("missing_field", .text m.missingField)]

namespace CategoryMapping

def toJson (m : CategoryMapping) : Json :=
  .record [("source", .text m.source), ("target", .text m.target)]

def ofJson? (j : Json) : Option CategoryMapping := do
  let [source, target] ← Json.fields? ["source", "target"] j | none
  some ⟨← Json.required Json.asText? source, ← Json.required Json.asText? target⟩

end CategoryMapping

end UsageBilling
