import UsageBilling.Invoice

/-!
# Items of a category

The groups of a category's usage become its items.  A group of a main query is an item; a group
of a sub-query goes under the item of its parent query with the same product and discount, and is
left out if there is none.  Should two main groups share query, product and discount, the later one
takes the sub-items.

An `ItemTable` has the items made so far and remembers where the item of each key is.  The main
groups are put in first (`ItemTable.addMain`), and then the others (`ItemTable.addSub`).
-/

namespace UsageBilling

/-- What an item is identified by in its category. -/
structure ItemKey where
  queryId : Uuid
  productId : Uuid
  discountId : Uuid
  deriving DecidableEq

namespace UsageGroup

/-- The group belongs to a main query. -/
def isMain (g : UsageGroup) : Bool := g.parentQueryId.isNone

def key (g : UsageGroup) : ItemKey := ⟨g.queryId, g.productId, g.discountId⟩

/-- The key of the item that a group of a sub-query goes under. -/
def parentKey? (g : UsageGroup) : Option ItemKey :=
  g.parentQueryId.map fun parent => ⟨parent, g.productId, g.discountId⟩

/-- The item of a main group, with nothing under it yet. -/
def toItem (g : UsageGroup) : Item where
  description := g.description
  queryName := g.queryName
  product := ⟨g.productSource, g.productTarget⟩
  quantity := g.quantity
  quantityMin := g.quantityMin
  quantityAvg := g.quantityAvg
  quantityMax := g.quantityMax
  unit := g.unit
  pricePerUnit := g.pricePerUnit
  discount := g.discount
  total := g.total
  subItems := []

/-- The sub-item of a group under an item; its price is dropped. -/
def toSubItem (g : UsageGroup) : SubItem where
  description := g.description
  queryName := g.queryName
  quantity := g.quantity
  quantityMin := g.quantityMin
  quantityAvg := g.quantityAvg
  quantityMax := g.quantityMax
  unit := g.unit

end UsageGroup

/-- One more sub-item, after those that are there. -/
def Item.addSubItem (i : Item) (s : SubItem) : Item := { i with subItems := i.subItems ++ [s] }

/-- The items made so far, and the position of each by its key.  Of two positions under one key the
later one stands first, and it counts. -/
structure ItemTable where
  items : List Item
  positions : List (ItemKey × Nat)

namespace ItemTable

/-- No items yet. -/
def empty : ItemTable := ⟨[], []⟩

/-- Add the item of a main group, and remember where it is. -/
def addMain (t : ItemTable) (g : UsageGroup) : ItemTable where
  items := t.items ++ [g.toItem]
  positions := (g.key, t.items.length) :: t.positions

/-- Put a group of a sub-query under its item, if there is one. -/
def addSub (t : ItemTable) (g : UsageGroup) : ItemTable :=
  match g.parentKey?.bind fun key => t.positions.lookup key with
  | some i => { t with items := t.items.modify i (·.addSubItem g.toSubItem) }
  | none => t

end ItemTable

/-- The items of a category. -/
def itemsOfGroups (groups : List UsageGroup) : List Item :=
  let (mains, subs) := groups.partition (·.isMain)
  (subs.foldl ItemTable.addSub (mains.foldl ItemTable.addMain .empty)).items

end UsageBilling
