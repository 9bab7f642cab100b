import UsageBilling.Invoice
import UsageBilling.Proofs.Number.ExactSum

/-!
# The totals of an invoice

Items are added up to categories, and categories to the invoice.  `Invoice.totals_exact` says when no
place is lost on the way: if all items, whatever their signs and scales, fit into one coefficient
together.  The totals are then worth what their items are, in whatever order and in whatever
categories these come.

* `Invoice.exists_ofItems?` : the total of a category.
* `Invoice.exists_assemble?` : the totals of an invoice.
-/

namespace UsageBilling

namespace Invoice

open Decimal

/-- What a category is made of. -/
structure CategoryParts where
  source : String
  target : String
  items : List Item

/-- The totals of the items of a category. -/
def CategoryParts.totals (part : CategoryParts) : List Decimal := part.items.map Item.total

/-- An invoice with a category of each of the parts. -/
def assemble? (tenant : TenantRef) (start stop : Timestamp) (parts : List CategoryParts) :
    Option Invoice := do
  let categories ← parts.mapM fun part =>
    InvoiceCategory.ofItems? part.source part.target part.items
  Invoice.ofCategories? tenant start stop categories

/-- The totals of all items. -/
def itemTotals (parts : List CategoryParts) : List Decimal := parts.flatMap CategoryParts.totals

variable {part : CategoryParts} {parts others : List CategoryParts} {s : Nat}

/-! ### Categories -/

/-- The category of the parts, with the exact total of its items. -/
structure RollsUp (s : Nat) (part : CategoryParts) (category : InvoiceCategory) : Prop where
  source_eq : category.source = part.source
  target_eq : category.target = part.target
  items_eq : category.items = part.items
  total_exact : ExactTotal s part.totals category.total

/-- **The items of a category that fit together** have an exact total. -/
theorem exists_ofItems? (part : CategoryParts) (hscale : ∀ x ∈ part.totals, x.scale ≤ s)
    (hfits : magnitudeSum s part.totals < magnitudeLimit) :
    ∃ category, InvoiceCategory.ofItems? part.source part.target part.items = some category ∧
      RollsUp s part category := by
  obtain ⟨total, htotal⟩ := exists_exactTotal hscale hfits
  refine ⟨⟨part.source, part.target, part.items, total⟩, ?_, ⟨rfl, rfl, rfl, htotal⟩⟩
  rw [InvoiceCategory.ofItems?]
  exact congrArg (Option.map _) htotal.addsUp.sum?_eq

/-- The totals of categories are worth what all their items are, and are no larger together. -/
theorem exists_categories (hscale : ∀ x ∈ itemTotals parts, x.scale ≤ s)
    (hfits : magnitudeSum s (itemTotals parts) < magnitudeLimit) :
    ∃ categories : List InvoiceCategory,
      (parts.mapM fun part => InvoiceCategory.ofItems? part.source part.target part.items) =
        some categories ∧
      List.Forall₂ (RollsUp s) parts categories ∧
      magnitudeSum s (categories.map InvoiceCategory.total) ≤ magnitudeSum s (itemTotals parts) ∧
      ((categories.map InvoiceCategory.total).map value).sum =
        ((itemTotals parts).map value).sum := by
  induction parts with
  | nil => exact ⟨[], rfl, .nil, Nat.le_refl _, rfl⟩
  | cons part parts ih =>
    have hsplit : itemTotals (part :: parts) = part.totals ++ itemTotals parts := List.flatMap_cons
    rw [hsplit, magnitudeSum_append] at hfits
    rw [hsplit, List.forall_mem_append] at hscale
    obtain ⟨category, hcategory, hrolls⟩ := exists_ofItems? part hscale.1 (by omega)
    obtain ⟨categories, hcategories, hall, hle, hvalue⟩ := ih hscale.2 (by omega)
    have hfirst : (category.total.coefficientAt s).natAbs ≤ magnitudeSum s part.totals := by
      rw [hrolls.total_exact.coefficientAt_eq hscale.1]
      exact natAbs_coefficientSum_le s part.totals
    have hcons : magnitudeSum s ((category :: categories).map InvoiceCategory.total) =
        (category.total.coefficientAt s).natAbs +
          magnitudeSum s (categories.map InvoiceCategory.total) := rfl
    refine ⟨category :: categories, ?_, .cons hrolls hall, ?_, ?_⟩
    · rw [List.mapM_cons, hcategory, hcategories]
      rfl
    · rw [hsplit, magnitudeSum_append, hcons]
      omega
    · rw [hsplit, List.map_append, List.sum_append, ← hvalue, ← hrolls.total_exact.value_eq]
      rfl

/-- A category is that of one of the parts. -/
theorem exists_part {categories : List InvoiceCategory} {category : InvoiceCategory}
    (h : List.Forall₂ (RollsUp s) parts categories) (hmem : category ∈ categories) :
    ∃ part ∈ parts, RollsUp s part category := by
  induction h with
  | nil => cases hmem
  | cons hrolls _ ih =>
    rcases List.mem_cons.1 hmem with rfl | hmem
    · exact ⟨_, List.mem_cons_self, hrolls⟩
    · obtain ⟨part, hpart, hrolls⟩ := ih hmem
      exact ⟨part, List.mem_cons_of_mem _ hpart, hrolls⟩

/-! ### Invoices -/

/-- The totals of an invoice at both levels. -/
structure TotalsExact (parts : List CategoryParts) (invoice : Invoice) : Prop where
  /-- Each category has the total of its own items. -/
  categories : List.Forall₂ (RollsUp (largestScale (itemTotals parts))) parts invoice.categories
  /-- The invoice has the total of its categories, -/
  total_exact : ExactTotal (largestScale (itemTotals parts))
    (invoice.categories.map InvoiceCategory.total) invoice.total
  /-- which is worth what all items are together. -/
  value_eq : invoice.total.value = ((itemTotals parts).map value).sum

/-- All items fit into one coefficient together, written with the places of the longest. -/
def Fits (parts : List CategoryParts) : Prop :=
  magnitudeSum (largestScale (itemTotals parts)) (itemTotals parts) < magnitudeLimit

instance (parts : List CategoryParts) : Decidable (Fits parts) :=
  inferInstanceAs (Decidable (_ < _))

theorem exists_assemble? (tenant : TenantRef) (start stop : Timestamp) (hfits : Fits parts) :
    ∃ invoice, assemble? tenant start stop parts = some invoice ∧ TotalsExact parts invoice := by
  obtain ⟨categories, hcategories, hall, hle, hvalue⟩ :=
    exists_categories scale_le_largestScale hfits
  have hscale : ∀ x ∈ categories.map InvoiceCategory.total,
      x.scale ≤ largestScale (itemTotals parts) := by
    intro x hx
    obtain ⟨category, hmem, rfl⟩ := List.mem_map.1 hx
    obtain ⟨part, -, hrolls⟩ := exists_part hall hmem
    exact hrolls.total_exact.scale_le
  obtain ⟨total, htotal⟩ := exists_exactTotal hscale (Nat.lt_of_le_of_lt hle hfits)
  refine ⟨⟨tenant, start, stop, categories, total⟩, ?_, hall, htotal, htotal.value_eq.trans hvalue⟩
  rw [assemble?, hcategories]
  exact congrArg (Option.map _) htotal.addsUp.sum?_eq

theorem fits_perm (h : (itemTotals others).Perm (itemTotals parts)) (hfits : Fits parts) :
    Fits others := by
  unfold Fits at hfits ⊢
  rwa [largestScale_perm h, magnitudeSum_perm h]

/-- The magnitudes of one category are among those of all. -/
theorem magnitudeSum_le_of_mem (hmem : part ∈ parts) :
    magnitudeSum s part.totals ≤ magnitudeSum s (itemTotals parts) := by
  obtain ⟨before, after, rfl⟩ := List.append_of_mem hmem
  simp only [itemTotals, List.flatMap_append, List.flatMap_cons, magnitudeSum_append]
  omega

theorem scale_le_of_mem (hmem : part ∈ parts) :
    ∀ x ∈ part.totals, x.scale ≤ largestScale (itemTotals parts) :=
  fun x hx => scale_le_largestScale x (List.mem_flatMap.2 ⟨part, hmem, hx⟩)

/-- **A category with its items in another order** has a total of the same worth. -/
theorem exists_ofItems?_perm {category : InvoiceCategory} {items : List Item}
    (hmem : part ∈ parts) (hfits : Fits parts)
    (hrolls : RollsUp (largestScale (itemTotals parts)) part category)
    (h : items.Perm category.items) :
    ∃ other, InvoiceCategory.ofItems? category.source category.target items = some other ∧
      other.total.value = category.total.value := by
  have htotals : (items.map Item.total).Perm part.totals := by
    rw [hrolls.items_eq] at h
    exact h.map Item.total
  have hscale : ∀ x ∈ items.map Item.total, x.scale ≤ largestScale (itemTotals parts) :=
    fun x hx => scale_le_of_mem hmem x (htotals.mem_iff.1 hx)
  have hless : magnitudeSum (largestScale (itemTotals parts)) (items.map Item.total) <
      magnitudeLimit := by
    rw [magnitudeSum_perm htotals]
    exact Nat.lt_of_le_of_lt (magnitudeSum_le_of_mem hmem) hfits
  obtain ⟨other, hother, hrolls'⟩ :=
    exists_ofItems? ⟨category.source, category.target, items⟩ hscale hless
  refine ⟨other, hother, ?_⟩
  rw [hrolls'.total_exact.value_eq, hrolls.total_exact.value_eq]
  exact (htotals.map value).sum_eq

/-- **Totals are exact to the last place.**  If all items of an invoice, written with the places of
the longest, fit into one coefficient together, then no addition fails or rounds, the total of each
category and of the invoice is worth what the items are, and none has more places than the longest.
So the worth depends neither on the order of items and categories nor on which items are in which
category. -/
theorem totals_exact (tenant : TenantRef) (start stop : Timestamp) (parts : List CategoryParts)
    (hfits : Fits parts) :
    ∃ invoice, assemble? tenant start stop parts = some invoice ∧ TotalsExact parts invoice ∧
      (∀ others, (itemTotals others).Perm (itemTotals parts) →
        ∃ other, assemble? tenant start stop others = some other ∧
          other.total.value = invoice.total.value) ∧
      ∀ category ∈ invoice.categories, ∀ items, items.Perm category.items →
        ∃ other, InvoiceCategory.ofItems? category.source category.target items = some other ∧
          other.total.value = category.total.value := by
  obtain ⟨invoice, hinvoice, hexact⟩ := exists_assemble? tenant start stop hfits
  refine ⟨invoice, hinvoice, hexact, fun others hperm => ?_, fun category hmem items hitems => ?_⟩
  · obtain ⟨other, hother, hexact'⟩ := exists_assemble? tenant start stop (fits_perm hperm hfits)
    refine ⟨other, hother, ?_⟩
    rw [hexact'.value_eq, hexact.value_eq]
    exact (hperm.map value).sum_eq
  · obtain ⟨part, hpart, hrolls⟩ := exists_part hexact.categories hmem
    exact exists_ofItems?_perm hpart hfits hrolls hitems

/-! ### Items of several scales -/

/-- An item with a total of a sign, a magnitude and a number of places. -/
def charged (negative : Bool) (magnitude scale : Nat) : Item where
  description := "Memory"
  queryName := "memory"
  product := ⟨"memory", ""⟩
  quantity := 1
  quantityMin := 1
  quantityAvg := 1
  quantityMax := 1
  unit := "MiB"
  pricePerUnit := .zero
  discount := .zero
  total := (Decimal.ofParts? negative magnitude scale).getD .zero
  subItems := []

/-- `1.50`, `-0.25` and `0.000` in one category, nothing in another, and `100.0001` in a third. -/
def severalParts : List CategoryParts :=
  [⟨"c:shop", "", [charged false 150 2, charged true 25 2, charged false 0 3]⟩, ⟨"c:web", "", []⟩,
    ⟨"c:mail", "", [charged false 1000001 4]⟩]

/-- The same items in two categories. -/
def otherParts : List CategoryParts :=
  [⟨"c:web", "", [charged false 1000001 4, charged true 25 2]⟩,
    ⟨"c:shop", "", [charged false 0 3, charged false 150 2]⟩]

/-- Midnight of the first and of the last day of the March of 2020. -/
def marchPeriod : Timestamp × Timestamp :=
  (⟨1583020800, 0, by decide⟩, ⟨1585612800, 0, by decide⟩)

theorem totals_exact_several :
    Fits severalParts ∧ (itemTotals otherParts).Perm (itemTotals severalParts) ∧
      ∃ invoice other,
        assemble? ⟨"acme", ""⟩ marchPeriod.1 marchPeriod.2 severalParts = some invoice ∧
        TotalsExact severalParts invoice ∧
        assemble? ⟨"acme", ""⟩ marchPeriod.1 marchPeriod.2 otherParts = some other ∧
        other.total.value = invoice.total.value ∧
        ∃ category ∈ invoice.categories, category.source = "c:shop" ∧
          ∃ turned, InvoiceCategory.ofItems? category.source category.target category.items.reverse =
            some turned ∧ turned.total.value = category.total.value := by
  have hfits : Fits severalParts := by decide
  have hperm : (itemTotals otherParts).Perm (itemTotals severalParts) := by decide
  obtain ⟨invoice, hinvoice, hexact, hothers, hreordered⟩ :=
    totals_exact ⟨"acme", ""⟩ marchPeriod.1 marchPeriod.2 severalParts hfits
  obtain ⟨other, hother, hsame⟩ := hothers otherParts hperm
  obtain ⟨category, rest, hrolls, -, hcategories⟩ := List.forall₂_cons_left_iff.1 hexact.categories
  have hmem : category ∈ invoice.categories := hcategories ▸ List.mem_cons_self
  exact ⟨hfits, hperm, invoice, other, hinvoice, hexact, hother, hsame, category, hmem,
    hrolls.source_eq, hreordered category hmem _ category.items.reverse_perm⟩

end Invoice

end UsageBilling
