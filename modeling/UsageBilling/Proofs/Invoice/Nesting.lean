import Mathlib.Data.List.Induction
import UsageBilling.Invoice.Items
import UsageBilling.Lookup
import UsageBilling.Proofs.Report.Transcript

/-!
# What goes under which item

The items of a category are made in a table that remembers where the item of each key is, and the
groups of sub-queries are put in where it says.  `nestedItems` says outright what comes of this: an
item with the figures of each main group, and under it those of the groups of which it is the home.

* `IsParent`, `IsHome` : a group of a sub-query is under its parent query, with the same product and
  discount, and its home is the last main group of these.
* `isHome_concat` : a main group is home to what is under it, until a later one takes its place.
* `Tabled.addMain`, `Tabled.addSub` : one more group keeps the table in accord with the groups so far.
* `itemsOfGroups_eq` : the items are those of `nestedItems`.
* `itemsOfGroups_nests` : no group is lost or doubled, and it does not matter how main groups and
  others are mixed.
-/

namespace UsageBilling

variable {mains subs groups : List UsageGroup} {main sub : UsageGroup} {t : ItemTable} {i j : Nat}

/-! ### Homes -/

/-- The groups of main queries, which have no parent. -/
def mainGroups (groups : List UsageGroup) : List UsageGroup :=
  groups.filter fun g => g.parentQueryId = none

/-- The groups of sub-queries. -/
def subGroups (groups : List UsageGroup) : List UsageGroup :=
  groups.filter fun g => g.parentQueryId ≠ none

/-- The main group is of the parent query of the sub-group, and of its product and discount. -/
def IsParent (main sub : UsageGroup) : Prop :=
  sub.parentQueryId = some main.queryId ∧ sub.productId = main.productId ∧
    sub.discountId = main.discountId

instance (main sub : UsageGroup) : Decidable (IsParent main sub) :=
  inferInstanceAs (Decidable (_ ∧ _))

/-- The main group at the position is a parent of the sub-group, and the last that is. -/
def IsHome (mains : List UsageGroup) (sub : UsageGroup) (i : Nat) : Prop :=
  (∃ main ∈ mains[i]?, IsParent main sub) ∧
    ∀ j < mains.length, i < j → ∀ main ∈ mains[j]?, ¬ IsParent main sub

instance (mains : List UsageGroup) (sub : UsageGroup) (i : Nat) : Decidable (IsHome mains sub i) :=
  inferInstanceAs (Decidable (_ ∧ _))

/-- Some main group is a parent of the sub-group. -/
def HasHome (mains : List UsageGroup) (sub : UsageGroup) : Prop := ∃ main ∈ mains, IsParent main sub

instance (mains : List UsageGroup) (sub : UsageGroup) : Decidable (HasHome mains sub) :=
  inferInstanceAs (Decidable (∃ main ∈ mains, _))

/-- The figures of a group that stands under an item. -/
def subItemOf (sub : UsageGroup) : SubItem where
  description := sub.description
  queryName := sub.queryName
  quantity := sub.quantity
  quantityMin := sub.quantityMin
  quantityAvg := sub.quantityAvg
  quantityMax := sub.quantityMax
  unit := sub.unit

/-- An item with the figures of each main group, and under it those that are at home there. -/
def nestedItems (mains subs : List UsageGroup) : List Item :=
  mains.mapIdx fun i main => {
    description := main.description
    queryName := main.queryName
    product := ⟨main.productSource, main.productTarget⟩
    quantity := main.quantity
    quantityMin := main.quantityMin
    quantityAvg := main.quantityAvg
    quantityMax := main.quantityMax
    unit := main.unit
    pricePerUnit := main.pricePerUnit
    discount := main.discount
    total := main.total
    subItems := (subs.filter fun sub => IsHome mains sub i).map subItemOf }

/-- Keys are compared to find a parent. -/
theorem parentKey?_eq_some_iff : sub.parentKey? = some main.key ↔ IsParent main sub := by
  simp only [UsageGroup.parentKey?, Option.map_eq_some_iff, UsageGroup.key, ItemKey.mk.injEq,
    IsParent]
  constructor
  · rintro ⟨parent, hparent, rfl, hrest⟩
    exact ⟨hparent, hrest⟩
  · rintro ⟨hparent, hrest⟩
    exact ⟨_, hparent, rfl, hrest⟩

theorem IsHome.lt_length (h : IsHome mains sub i) : i < mains.length := by
  obtain ⟨⟨main, hmain, -⟩, -⟩ := h
  exact (List.getElem?_eq_some_iff.1 hmain).1

/-- There is one home at most. -/
theorem IsHome.unique (h : IsHome mains sub i) (h' : IsHome mains sub j) : i = j := by
  have hi := h.lt_length
  have hj := h'.lt_length
  obtain ⟨⟨main, hmain, hparent⟩, hlast⟩ := h
  obtain ⟨⟨main', hmain', hparent'⟩, hlast'⟩ := h'
  rcases Nat.lt_trichotomy i j with hlt | heq | hlt
  · exact absurd hparent' (hlast j hj hlt main' hmain')
  · exact heq
  · exact absurd hparent (hlast' i hi hlt main hmain)

/-- **The last parent is the home.** -/
theorem isHome_concat : IsHome (mains ++ [main]) sub i ↔
    if IsParent main sub then i = mains.length else IsHome mains sub i := by
  have hlast : (mains ++ [main])[mains.length]? = some main := by simp
  have hbefore : ∀ k < mains.length, (mains ++ [main])[k]? = mains[k]? :=
    fun k hk => List.getElem?_append_left hk
  have hlength : (mains ++ [main]).length = mains.length + 1 := by simp
  split
  · next hparent =>
    constructor
    · intro h
      have hi := h.lt_length
      by_contra hne
      exact h.2 mains.length (by omega) (by omega) main hlast hparent
    · rintro rfl
      exact ⟨⟨main, hlast, hparent⟩, fun j hj hlt => by omega⟩
  · next hparent =>
    constructor
    · intro h
      have hi := h.lt_length
      obtain ⟨⟨g, hg, hhome⟩, hlater⟩ := h
      have hne : i ≠ mains.length := by
        rintro rfl
        obtain rfl : main = g := Option.some.inj (hlast.symm.trans hg)
        exact hparent hhome
      rw [hbefore i (by omega)] at hg
      refine ⟨⟨g, hg, hhome⟩, fun j hj hlt g' hg' => ?_⟩
      exact hlater j (by omega) hlt g' ((hbefore j hj).trans hg')
    · intro h
      have hi := h.lt_length
      obtain ⟨⟨g, hg, hhome⟩, hlater⟩ := h
      refine ⟨⟨g, (hbefore i hi).trans hg, hhome⟩, fun j hj hlt g' hg' => ?_⟩
      by_cases hj' : j = mains.length
      · obtain rfl : main = g' := Option.some.inj (hlast.symm.trans (hj' ▸ hg'))
        exact hparent
      · rw [hbefore j (by omega)] at hg'
        exact hlater j (by omega) hlt g' hg'

/-- There is a home exactly if there is a parent. -/
theorem exists_isHome_iff : (∃ i, IsHome mains sub i) ↔ HasHome mains sub := by
  induction mains using List.reverseRecOn with
  | nil => simp [IsHome, HasHome]
  | append_singleton mains main ih =>
    have hsplit : HasHome (mains ++ [main]) sub ↔ HasHome mains sub ∨ IsParent main sub := by
      simp [HasHome, or_and_right, exists_or]
    rw [hsplit, ← ih]
    simp only [isHome_concat]
    by_cases hparent : IsParent main sub <;> simp [hparent]

/-! ### The table -/

/-- What the table holds after some main groups and some others. -/
structure Tabled (mains subs : List UsageGroup) (t : ItemTable) : Prop where
  items_eq : t.items = nestedItems mains subs
  /-- The position that is found is the home. -/
  lookup_iff : ∀ sub i, (sub.parentKey?.bind fun key => t.positions.lookup key) = some i ↔
    IsHome mains sub i
  /-- Every group that has a home is under an item once. -/
  subItems_perm : (t.items.flatMap (·.subItems)).Perm
    ((subs.filter fun sub => HasHome mains sub).map subItemOf)

theorem nestedItems_nil (mains : List UsageGroup) :
    nestedItems mains [] = mains.map UsageGroup.toItem := by
  refine List.ext_getElem? fun i => ?_
  rw [nestedItems, List.getElem?_mapIdx, List.getElem?_map]
  rfl

/-- A new group comes last under its home. -/
theorem getElem?_nestedItems_concat (mains subs : List UsageGroup) (sub : UsageGroup) (i : Nat) :
    (nestedItems mains (subs ++ [sub]))[i]? = (nestedItems mains subs)[i]?.map fun item =>
      if IsHome mains sub i then item.addSubItem (subItemOf sub) else item := by
  simp only [nestedItems, List.getElem?_mapIdx, Option.map_map]
  refine congrArg (fun f => mains[i]?.map f) (funext fun main => ?_)
  by_cases h : IsHome mains sub i <;> simp [h, Item.addSubItem, List.filter_append]

theorem tabled_empty : Tabled [] [] .empty where
  items_eq := rfl
  lookup_iff sub i := by cases sub.parentKey? <;> simp [ItemTable.empty, IsHome]
  subItems_perm := .refl _

/-- **One more main group** gets the last item, and is found under its key from now on. -/
theorem Tabled.addMain (h : Tabled mains [] t) (main : UsageGroup) :
    Tabled (mains ++ [main]) [] (t.addMain main) where
  items_eq := by
    rw [ItemTable.addMain, h.items_eq, nestedItems_nil, nestedItems_nil, List.map_append,
      List.map_singleton]
  lookup_iff sub i := by
    have hlength : t.items.length = mains.length := by
      rw [h.items_eq, nestedItems_nil, List.length_map]
    simp only [isHome_concat, ← parentKey?_eq_some_iff, ← h.lookup_iff, ItemTable.addMain, hlength]
    cases sub.parentKey? with
    | none => simp
    | some key =>
      simp only [Option.bind_some, lookup_cons_ite, Option.some.injEq]
      by_cases hkey : key = main.key <;> simp [hkey, eq_comm]
  subItems_perm := by
    rw [ItemTable.addMain, List.flatMap_append, List.flatMap_singleton]
    simpa [UsageGroup.toItem] using h.subItems_perm

/-- A sub-item more is a sub-item more in all. -/
theorem flatMap_subItems_modify {items : List Item} (hi : i < items.length) (s : SubItem) :
    ((items.modify i (·.addSubItem s)).flatMap (·.subItems)).Perm
      (items.flatMap (·.subItems) ++ [s]) := by
  induction items generalizing i with
  | nil => cases hi
  | cons item items ih =>
    cases i with
    | zero =>
      rw [List.modify_zero_cons, List.flatMap_cons, List.flatMap_cons, Item.addSubItem,
        List.append_assoc, List.append_assoc]
      exact List.perm_append_comm.append_left _
    | succ i =>
      rw [List.modify_succ_cons, List.flatMap_cons, List.flatMap_cons, List.append_assoc]
      exact (ih (Nat.lt_of_succ_lt_succ hi)).append_left _

/-- **One more group of a sub-query** goes under its home, and nowhere if it has none. -/
theorem Tabled.addSub (h : Tabled mains subs t) (sub : UsageGroup) :
    Tabled mains (subs ++ [sub]) (t.addSub sub) := by
  cases hfound : sub.parentKey?.bind fun key => t.positions.lookup key with
  | none =>
    have hnone : ∀ i, ¬ IsHome mains sub i := fun i hi => by
      rw [← h.lookup_iff, hfound] at hi
      cases hi
    have hno : ¬ HasHome mains sub := fun hhome =>
      have ⟨i, hi⟩ := exists_isHome_iff.2 hhome
      hnone i hi
    have htable : t.addSub sub = t := by rw [ItemTable.addSub, hfound]
    rw [htable]
    refine ⟨?_, h.lookup_iff, ?_⟩
    · rw [h.items_eq]
      refine List.ext_getElem? fun i => ?_
      rw [getElem?_nestedItems_concat]
      simp [hnone i]
    · simpa [List.filter_append, hno] using h.subItems_perm
  | some i =>
    have hhome : IsHome mains sub i := (h.lookup_iff sub i).1 hfound
    have htable : t.addSub sub =
        { t with items := t.items.modify i (·.addSubItem (subItemOf sub)) } := by
      rw [ItemTable.addSub, hfound]
      rfl
    have hlength : i < t.items.length := by
      rw [h.items_eq, nestedItems, List.length_mapIdx]
      exact hhome.lt_length
    rw [htable]
    refine ⟨?_, h.lookup_iff, ?_⟩
    · refine List.ext_getElem? fun j => ?_
      rw [getElem?_nestedItems_concat, ← h.items_eq, List.getElem?_modify]
      have hsame : i = j ↔ IsHome mains sub j := ⟨fun heq => heq ▸ hhome, hhome.unique⟩
      simp only [hsame]
      rfl
    · have hhas : HasHome mains sub := exists_isHome_iff.1 ⟨i, hhome⟩
      refine (flatMap_subItems_modify hlength (subItemOf sub)).trans ?_
      simpa [List.filter_append, hhas] using h.subItems_perm.append_right [subItemOf sub]

theorem Tabled.foldl_addMain (h : Tabled mains [] t) (more : List UsageGroup) :
    Tabled (mains ++ more) [] (more.foldl ItemTable.addMain t) := by
  induction more generalizing mains t with
  | nil => rwa [List.append_nil]
  | cons main more ih =>
    rw [List.append_cons]
    exact ih (h.addMain main)

theorem Tabled.foldl_addSub (h : Tabled mains subs t) (more : List UsageGroup) :
    Tabled mains (subs ++ more) (more.foldl ItemTable.addSub t) := by
  induction more generalizing subs t with
  | nil => rwa [List.append_nil]
  | cons sub more ih =>
    rw [List.append_cons]
    exact ih (h.addSub sub)

/-! ### The items -/

theorem tabled_groups (groups : List UsageGroup) : Tabled (mainGroups groups) (subGroups groups)
    ((subGroups groups).foldl ItemTable.addSub
      ((mainGroups groups).foldl ItemTable.addMain .empty)) := by
  simpa using (tabled_empty.foldl_addMain (mainGroups groups)).foldl_addSub (subGroups groups)

theorem itemsOfGroups_def (groups : List UsageGroup) : itemsOfGroups groups =
    ((subGroups groups).foldl ItemTable.addSub
      ((mainGroups groups).foldl ItemTable.addMain .empty)).items := by
  have hmain (g : UsageGroup) : g.isMain = decide (g.parentQueryId = none) := by
    cases h : g.parentQueryId <;> simp [UsageGroup.isMain, h]
  have hsub : ((!·) ∘ UsageGroup.isMain) = fun g => decide (g.parentQueryId ≠ none) :=
    funext fun g => by simp [hmain]
  unfold itemsOfGroups
  rw [List.partition_eq_filter_filter, hsub]
  simp only [hmain]
  rfl

/-- **The items are nested as they should be.** -/
theorem itemsOfGroups_eq (groups : List UsageGroup) :
    itemsOfGroups groups = nestedItems (mainGroups groups) (subGroups groups) := by
  rw [itemsOfGroups_def, (tabled_groups groups).items_eq]

theorem map_total_nestedItems (mains subs : List UsageGroup) :
    (nestedItems mains subs).map Item.total = mains.map UsageGroup.total := by
  refine List.ext_getElem? fun i => ?_
  simp [nestedItems, List.getElem?_mapIdx, Function.comp_def]

/-- What the items of a category are to its groups. -/
structure Nests (groups : List UsageGroup) (items : List Item) : Prop where
  /-- There is one item for each main group, in order and with its figures, and under it stand, in
  order, the groups that it is home to. -/
  items_eq : items = nestedItems (mainGroups groups) (subGroups groups)
  /-- No group has two homes. -/
  home_unique : ∀ sub i j, IsHome (mainGroups groups) sub i → IsHome (mainGroups groups) sub j →
    i = j
  /-- A group has a home exactly if it has a parent. -/
  exists_home_iff : ∀ sub, (∃ i, IsHome (mainGroups groups) sub i) ↔ HasHome (mainGroups groups) sub
  /-- The groups that have a home stand under the items once each, and no others do. -/
  subItems_perm : (items.flatMap (·.subItems)).Perm
    (((subGroups groups).filter fun sub => HasHome (mainGroups groups) sub).map subItemOf)
  /-- Only main groups are charged. -/
  totals_eq : items.map Item.total = (mainGroups groups).map UsageGroup.total

/-- **No group is lost or doubled.**  The items of a category are its main groups in order, each with
the groups under it whose home it is; the total of the category is that of its main groups; and all
depends on the main groups and on the others alone, not on how they are mixed. -/
theorem itemsOfGroups_nests (groups : List UsageGroup) :
    Nests groups (itemsOfGroups groups) ∧
      (∀ source target, InvoiceCategory.ofItems? source target (itemsOfGroups groups) =
        (Decimal.sum? ((mainGroups groups).map UsageGroup.total)).map fun total =>
          ⟨source, target, itemsOfGroups groups, total⟩) ∧
      ∀ others, mainGroups others = mainGroups groups → subGroups others = subGroups groups →
        itemsOfGroups others = itemsOfGroups groups := by
  have htotals : (itemsOfGroups groups).map Item.total =
      (mainGroups groups).map UsageGroup.total := by
    rw [itemsOfGroups_eq, map_total_nestedItems]
  refine ⟨?_, fun source target => ?_, fun others hmains hsubs => ?_⟩
  · exact {
      items_eq := itemsOfGroups_eq groups
      home_unique := fun sub i j => IsHome.unique
      exists_home_iff := fun sub => exists_isHome_iff
      subItems_perm := by
        rw [itemsOfGroups_def]
        exact (tabled_groups groups).subItems_perm
      totals_eq := htotals }
  · rw [InvoiceCategory.ofItems?, htotals]
  · rw [itemsOfGroups_eq, itemsOfGroups_eq, hmains, hsubs]

/-! ### A category with a repeated key -/

/-- A group of a query of its own or under another. -/
def usageOf (name : String) (query : Nat) (parent : Option Nat) (product discount : Nat) :
    UsageGroup where
  queryId := Report.smallId query
  parentQueryId := parent.map Report.smallId
  productId := Report.smallId product
  discountId := Report.smallId discount
  description := name
  queryName := "memory"
  quantity := 4
  quantityMin := 1
  quantityAvg := 2
  quantityMax := 3
  unit := "MiB"
  pricePerUnit := .zero
  discount := .zero
  productSource := "memory"
  productTarget := "7"
  total := .zero

/-- Two main groups of one key, one of another product and one of another discount.  There are groups
under each of these, one under the group of a sub-query, and one of a product that no main group
has. -/
def mixedGroups : List UsageGroup :=
  [usageOf "first" 10 none 20 21, usageOf "child" 11 (some 10) 20 21,
    usageOf "again" 10 none 20 21, usageOf "grandchild" 13 (some 11) 20 21,
    usageOf "product" 10 none 30 21, usageOf "of product" 11 (some 10) 30 21,
    usageOf "discount" 10 none 20 31, usageOf "of discount" 11 (some 10) 20 31,
    usageOf "orphan" 11 (some 10) 40 21, usageOf "second child" 12 (some 10) 20 21]

/-- The same with the groups of sub-queries in front. -/
def sortedGroups : List UsageGroup := subGroups mixedGroups ++ mainGroups mixedGroups

/-- An item of a memory query. -/
def memoryItem (name : String) (below : List String) : Item where
  description := name
  queryName := "memory"
  product := ⟨"memory", "7"⟩
  quantity := 4
  quantityMin := 1
  quantityAvg := 2
  quantityMax := 3
  unit := "MiB"
  pricePerUnit := .zero
  discount := .zero
  total := .zero
  subItems := below.map fun name => ⟨name, "memory", 4, 1, 2, 3, "MiB"⟩

theorem itemsOfGroups_nests_mixed :
    mainGroups sortedGroups = mainGroups mixedGroups ∧
      subGroups sortedGroups = subGroups mixedGroups ∧
      itemsOfGroups sortedGroups = itemsOfGroups mixedGroups ∧
      itemsOfGroups mixedGroups =
        [memoryItem "first" [], memoryItem "again" ["child", "second child"],
          memoryItem "product" ["of product"], memoryItem "discount" ["of discount"]] :=
  ⟨rfl, rfl, (itemsOfGroups_nests mixedGroups).2.2 sortedGroups rfl rfl, by decide +kernel⟩

end UsageBilling
