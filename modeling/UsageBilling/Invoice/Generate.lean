import UsageBilling.Invoice.Items
import UsageBilling.Session

/-!
# Generating invoices

The invoices of a month, one for each tenant with facts in it, read in one transaction that
changes nothing.
-/

namespace UsageBilling.Invoice

variable {σ : Type}

/-- The invoice category of a tenant's category in a month. -/
def readCategory (month : BillingMonth) (tenant : Tenant) (category : Category) :
    Session σ InvoiceCategory := do
  let groups ← Session.fetchAll UsageGroup.ofRow? (.monthGroups month tenant.id category.id)
  Session.inRange
    (InvoiceCategory.ofItems? category.source (category.target.getD "") (itemsOfGroups groups))

/-- The invoice of a tenant for a month. -/
def readTenant (month : BillingMonth) (tenant : Tenant) : Session σ Invoice := do
  let categories ← Session.fetchAll Category.ofRow? (.monthCategories month tenant.id)
  let invoiceCategories ← categories.mapM (readCategory month tenant)
  let periodEnd ← Session.inRange month.periodEnd?
  Session.inRange
    (Invoice.ofCategories? ⟨tenant.source, tenant.target.getD ""⟩ month.periodStart periodEnd
      invoiceCategories)

/-- The invoices of a month, inside the caller's transaction. -/
def readMonth (month : BillingMonth) : Session σ (List Invoice) := do
  let tenants ← Session.fetchAll Tenant.ofRow? (.monthTenants month)
  tenants.mapM (readTenant month)

/-- The invoices of a month, by tenant. -/
def generate (year : Int) (month : Nat) : Session σ (List Invoice) :=
  match BillingMonth.ofNumbers? year month with
  | some m => Session.transaction .readOnly (readMonth m)
  | none => Session.fail (.validation (.invalidMonth month))

end UsageBilling.Invoice
