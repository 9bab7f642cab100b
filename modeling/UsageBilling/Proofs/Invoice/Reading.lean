import UsageBilling.Invoice.Generate
import UsageBilling.Proofs.Report.Transcript
import UsageBilling.Proofs.Session.Enclosure

/-!
# What the invoices of a month are made of

The invoices of a month are read in one transaction that may only read: the tenants, then for each
tenant its categories, and for each of these its groups of usage.  `Invoice.CategorySteps`,
`Invoice.TenantSteps` and `Invoice.MonthSteps` say which statements are asked at each level, and
what is made of the replies.

* `Invoice.yields_readCategory`, `Invoice.yields_readTenant`, `Invoice.yields_readMonth` : each level
  asks and makes what its `Steps` say.
* `Invoice.generate_reads_month` : every record read lands in its own place of the invoices, and
  nothing is asked for a month that there is not.
-/

namespace UsageBilling.Invoice

open Session

variable {σ : Type} {month : BillingMonth} {tenant : Tenant} {category : Category}

/-! ### The statements of each level -/

/-- The groups of a tenant and category are asked for once, and make the items. -/
inductive CategorySteps (month : BillingMonth) (tenant : Tenant) (category : Category) :
    InvoiceCategory → List Event → Prop
  | intro {reply : Reply} {groups : List UsageGroup} {total : Decimal} :
      Reply.all? UsageGroup.ofRow? reply = some groups →
      Decimal.sum? ((itemsOfGroups groups).map Item.total) = some total →
      CategorySteps month tenant category
        ⟨category.source, category.target.getD "", itemsOfGroups groups, total⟩
        [.statement (.monthGroups month tenant.id category.id) reply]

/-- The categories of a tenant are asked for once, and each is followed up in turn: `parts` has what
is made of each, and its steps. -/
inductive TenantSteps (month : BillingMonth) (tenant : Tenant) : Invoice → List Event → Prop
  | intro {reply : Reply} {categories : List Category}
      {parts : List (InvoiceCategory × List Event)} {stop : Timestamp} {total : Decimal} :
      Reply.all? Category.ofRow? reply = some categories →
      List.Forall₂ (fun category part => CategorySteps month tenant category part.1 part.2)
        categories parts →
      month.periodEnd? = some stop →
      Decimal.sum? ((parts.map Prod.fst).map InvoiceCategory.total) = some total →
      TenantSteps month tenant
        ⟨⟨tenant.source, tenant.target.getD ""⟩, month.periodStart, stop, parts.map Prod.fst, total⟩
        (.statement (.monthCategories month tenant.id) reply :: (parts.map Prod.snd).flatten)

/-- The tenants of a month are asked for once, and each is followed up in turn. -/
inductive MonthSteps (month : BillingMonth) : List Invoice → List Event → Prop
  | intro {reply : Reply} {tenants : List Tenant} {parts : List (Invoice × List Event)} :
      Reply.all? Tenant.ofRow? reply = some tenants →
      List.Forall₂ (fun tenant part => TenantSteps month tenant part.1 part.2) tenants parts →
      MonthSteps month (parts.map Prod.fst)
        (.statement (.monthTenants month) reply :: (parts.map Prod.snd).flatten)

/-! ### One level after the other -/

theorem yields_readCategory (category : Category) :
    Yields (readCategory month tenant category : Session σ InvoiceCategory)
      (CategorySteps month tenant category) := by
  refine Yields.fetchAll.bind ?_
  rintro groups _ ⟨reply, hgroups, rfl⟩
  refine Yields.inRange.mono ?_
  rintro c _ ⟨hc, rfl⟩
  obtain ⟨total, htotal, rfl⟩ := Option.map_eq_some_iff.1 hc
  exact .intro hgroups htotal

theorem yields_readTenant (tenant : Tenant) :
    Yields (readTenant month tenant : Session σ Invoice) (TenantSteps month tenant) := by
  refine Yields.fetchAll.bind ?_
  rintro categories _ ⟨reply, hcategories, rfl⟩
  refine (Yields.mapM yields_readCategory categories).bind ?_
  rintro _ _ ⟨parts, hparts, rfl, rfl⟩
  refine Yields.inRange.bind ?_
  rintro stop _ ⟨hstop, rfl⟩
  refine Yields.inRange.mono ?_
  rintro invoice _ ⟨hinvoice, rfl⟩
  obtain ⟨total, htotal, rfl⟩ := Option.map_eq_some_iff.1 hinvoice
  simpa using TenantSteps.intro hcategories hparts hstop htotal

theorem yields_readMonth :
    Yields (readMonth month : Session σ (List Invoice)) (MonthSteps month) := by
  refine Yields.fetchAll.bind ?_
  rintro tenants _ ⟨reply, htenants, rfl⟩
  refine (Yields.mapM yields_readTenant tenants).mono ?_
  rintro _ _ ⟨parts, hparts, rfl, rfl⟩
  exact .intro htenants hparts

theorem plain_readCategory (month : BillingMonth) (tenant : Tenant) (category : Category) :
    Plain (readCategory month tenant category : Session σ InvoiceCategory) :=
  .bind (.fetchAll _ _) fun _ => .inRange _

theorem plain_readTenant (month : BillingMonth) (tenant : Tenant) :
    Plain (readTenant month tenant : Session σ Invoice) :=
  .bind (.fetchAll _ _) fun categories =>
  .bind (.mapM (plain_readCategory month tenant) categories) fun _ =>
  .bind (.inRange _) fun _ => .inRange _

theorem plain_readMonth (month : BillingMonth) :
    Plain (readMonth month : Session σ (List Invoice)) :=
  .bind (.fetchAll _ _) fun tenants => .mapM (plain_readTenant month) tenants

/-! ### A month -/

theorem ofNumbers?_eq_some {year : Int} {number : Nat} :
    BillingMonth.ofNumbers? year number = some month ↔
      month.year = year ∧ month.month = number := by
  unfold BillingMonth.ofNumbers?
  constructor
  · intro h
    split at h
    · obtain rfl := Option.some.inj h
      exact ⟨rfl, rfl⟩
    · cases h
  · rintro ⟨rfl, rfl⟩
    rw [dif_pos month.month_mem]

/-- **Every record lands in its own place.**  Whenever the invoices of a month are generated, the
steps are one transaction that may only read, with the statements of `MonthSteps` and no other, and
the invoices are made of the replies to them, one level inside the other and in order.  With a month
number that there is not, nothing is asked. -/
theorem generate_reads_month {env : Environment σ} {w : World σ} {year : Int} {number : Nat} :
    (∀ invoices w', runIn env w (generate year number) = (.ok invoices, w') →
      ∃ (month : BillingMonth) (inner : List Event), month.year = year ∧ month.month = number ∧
        MonthSteps month invoices inner ∧
        w'.trace = w.trace ++ ([.control .start none, .control .readOnly none] ++ inner ++
          [.control .commit none]) ∧
        env.Answers w.outside ([.control .start none, .control .readOnly none] ++ inner ++
          [.control .commit none]) w'.outside) ∧
      (¬ (1 ≤ number ∧ number ≤ 12) → runIn env w (generate year number) =
        (.error (.failed (.validation (.invalidMonth number))), w)) := by
  unfold generate
  constructor
  · intro invoices w' h
    cases hmonth : BillingMonth.ofNumbers? year number with
    | none =>
      rw [hmonth] at h
      cases h
    | some month =>
      rw [hmonth] at h
      obtain ⟨hyear, hnumber⟩ := ofNumbers?_eq_some.1 hmonth
      obtain ⟨_, htrace, hanswers, inner, hinner, rfl⟩ :=
        (Yields.transaction yields_readMonth).exists_recorded
          (Recorded.transaction (plain_readMonth month).recorded) h
      exact ⟨month, inner, hyear, hnumber, hinner, htrace, hanswers⟩
  · intro hnumber
    rw [BillingMonth.ofNumbers?, dif_neg hnumber]
    exact runIn_fail env w _

/-! ### A month with two tenants -/

/-- A row of a group of usage, of a main query or of one under it. -/
def groupRow (query : Nat) (parent : Cell) (total : Decimal) : Row :=
  [("query_id", .uuid (Report.smallId query)), ("parent_query_id", parent),
    ("product_id", .uuid (Report.smallId 20)), ("discount_id", .uuid (Report.smallId 21)),
    ("description", .text "Memory"), ("query_name", .text "memory"), ("quantity", .float 4),
    ("quantity_min", .float 1), ("quantity_avg", .float 2), ("quantity_max", .float 3),
    ("unit", .text "MiB"), ("price_per_unit", .decimal .zero), ("discount", .decimal .zero),
    ("product_source", .text "memory"), ("product_target", .text ""), ("total", .decimal total)]

def twoAndAHalf : Decimal := ⟨false, 25, 1, by decide, by decide⟩

/-- Two tenants that share a category; the first has another one too, and the second has nothing in
the shared one. -/
def marchScript : Script where
  reachable := true
  faults := []
  replies := [
    .ok (.rows [Report.anyRow 1 "acme", Report.anyRow 2 "umbrella"]),
    .ok (.rows [Report.anyRow 3 "c:shop", Report.anyRow 4 "c:web"]),
    .ok (.rows [groupRow 10 .null twoAndAHalf,
      groupRow 11 (.uuid (Report.smallId 10)) twoAndAHalf]),
    .ok (.rows [groupRow 10 .null twoAndAHalf, groupRow 12 .null twoAndAHalf]),
    .ok (.rows [Report.anyRow 3 "c:shop"]),
    .ok (.rows [])]
  evaluations := []
  reconciliations := []

/-- How the invoices of a March are generated. -/
def marchRun : Except Stop (List Invoice) × World Script :=
  runIn Script.environment ⟨marchScript, [], .zero⟩ (generate 2020 3)

/-- How many items each category of each invoice has. -/
def itemCounts (invoices : List Invoice) : List (List Nat) :=
  invoices.map fun i => i.categories.map fun c => c.items.length

theorem exists_marchRun_eq :
    ∃ invoices, marchRun = (.ok invoices, marchRun.2) ∧ itemCounts invoices = [[1, 2], [0]] := by
  have hcounts : marchRun.1.toOption.map itemCounts = some [[1, 2], [0]] := by decide +kernel
  obtain ⟨invoices, hinvoices, hitems⟩ := Option.map_eq_some_iff.1 hcounts
  refine ⟨invoices, ?_, hitems⟩
  rcases h : marchRun with ⟨stop | invoices', w'⟩
  · rw [h] at hinvoices
    cases hinvoices
  · rw [h] at hinvoices
    cases hinvoices
    rfl

theorem generate_reads_month_march :
    ∃ invoices, marchRun = (.ok invoices, marchRun.2) ∧ itemCounts invoices = [[1, 2], [0]] ∧
      ∃ (month : BillingMonth) (inner : List Event), month.year = 2020 ∧ month.month = 3 ∧
        MonthSteps month invoices inner ∧
        marchRun.2.trace = [] ++ ([.control .start none, .control .readOnly none] ++ inner ++
          [.control .commit none]) ∧
        Script.environment.Answers marchScript ([.control .start none, .control .readOnly none] ++
          inner ++ [.control .commit none]) marchRun.2.outside := by
  obtain ⟨invoices, hrun, hitems⟩ := exists_marchRun_eq
  exact ⟨invoices, hrun, hitems, generate_reads_month.1 invoices _ hrun⟩

end UsageBilling.Invoice
