import Mathlib.Data.List.Dedup
import Mathlib.Logic.Function.Basic
import UsageBilling.Session

/-!
# The fact table

A fact is put in under its key, and a fact that is there gets a new quantity: a `FactTable` gives
every key its quantity, and `FactTable.write` replaces it.

* `factWrites steps` : the keys and quantities that steps put in, in order.
* `FactTable.writeAll_of_last` : of several writes to one key the last counts.
* `FactTable.writeAll_of_nodup` : writes with keys of their own all survive.
* `FactTable.writeAll_writeAll` : writes are void after later ones to the same keys.
* `FactTable.writeAll_perm` : the order of writes with keys of their own does not matter.
-/

namespace UsageBilling

/-! ### What steps write -/

/-- The key and the quantity that a statement puts in. -/
def Statement.factWrite? : Statement → Option (FactKey × Float)
  | .upsertFact key quantity => some (key, quantity)
  | _ => none

/-- The key and the quantity that a step puts in. -/
def Event.factWrite? : Event → Option (FactKey × Float)
  | .statement q _ => q.factWrite?
  | _ => none

/-- The keys and quantities of the facts that steps put in. -/
def factWrites (steps : List Event) : List (FactKey × Float) := steps.filterMap Event.factWrite?

theorem factWrites_append (steps steps' : List Event) :
    factWrites (steps ++ steps') = factWrites steps ++ factWrites steps' :=
  List.filterMap_append

theorem factWrites_cons_of_none {e : Event} (h : e.factWrite? = none) (steps : List Event) :
    factWrites (e :: steps) = factWrites steps := List.filterMap_cons_none h

/-! ### Tables -/

/-- The quantity of each key that has a fact. -/
abbrev FactTable := FactKey → Option Float

namespace FactTable

/-- Put in a fact, or give it a new quantity. -/
def write (table : FactTable) (w : FactKey × Float) : FactTable :=
  Function.update table w.1 (some w.2)

/-- Write one after the other. -/
def writeAll (table : FactTable) (writes : List (FactKey × Float)) : FactTable :=
  writes.foldl write table

theorem writeAll_append (table : FactTable) (writes writes' : List (FactKey × Float)) :
    table.writeAll (writes ++ writes') = (table.writeAll writes).writeAll writes' :=
  List.foldl_append

/-- What no write is about stays. -/
theorem writeAll_of_not_mem {table : FactTable} {writes : List (FactKey × Float)} {key : FactKey}
    (h : key ∉ writes.map Prod.fst) : table.writeAll writes key = table key := by
  induction writes generalizing table with
  | nil => rfl
  | cons w writes ih =>
    rw [List.map_cons, List.mem_cons, not_or] at h
    exact (ih h.2).trans (Function.update_of_ne h.1 _ _)

/-- **The last write counts.** -/
theorem writeAll_of_last {table : FactTable} {before after : List (FactKey × Float)}
    {key : FactKey} {quantity : Float} (h : key ∉ after.map Prod.fst) :
    table.writeAll (before ++ (key, quantity) :: after) key = some quantity := by
  rw [writeAll_append]
  exact (writeAll_of_not_mem h).trans (Function.update_self _ _ _)

/-- **Writes with keys of their own all survive.** -/
theorem writeAll_of_nodup {table : FactTable} {writes : List (FactKey × Float)}
    (h : (writes.map Prod.fst).Nodup) {w : FactKey × Float} (hw : w ∈ writes) :
    table.writeAll writes w.1 = some w.2 := by
  obtain ⟨before, after, rfl⟩ := List.append_of_mem hw
  rw [List.map_append, List.map_cons] at h
  exact writeAll_of_last (List.nodup_cons.1 (List.nodup_append.1 h).2.1).1

/-- What is written does not depend on what was there. -/
theorem writeAll_eq_of_mem {writes : List (FactKey × Float)} {key : FactKey}
    (h : key ∈ writes.map Prod.fst) (table table' : FactTable) :
    table.writeAll writes key = table'.writeAll writes key := by
  induction writes generalizing table table' with
  | nil => simp at h
  | cons w writes ih =>
    by_cases hlater : key ∈ writes.map Prod.fst
    · exact ih hlater _ _
    · have hkey : key = w.1 := by
        rw [List.map_cons, List.mem_cons] at h
        exact h.resolve_right hlater
      subst hkey
      have hlast (table : FactTable) : table.writeAll ([] ++ w :: writes) w.1 = some w.2 :=
        writeAll_of_last hlater
      simp only [List.nil_append] at hlast
      rw [hlast, hlast]

/-- **Later writes to the same keys make earlier ones void.** -/
theorem writeAll_writeAll {writes writes' : List (FactKey × Float)}
    (h : writes.map Prod.fst ⊆ writes'.map Prod.fst) (table : FactTable) :
    (table.writeAll writes).writeAll writes' = table.writeAll writes' := by
  funext key
  by_cases hkey : key ∈ writes'.map Prod.fst
  · exact writeAll_eq_of_mem hkey _ _
  · rw [writeAll_of_not_mem hkey, writeAll_of_not_mem hkey,
      writeAll_of_not_mem fun hmem => hkey (h hmem)]

/-- **Writes with keys of their own may come in any order.** -/
theorem writeAll_perm {writes writes' : List (FactKey × Float)} (h : writes.Perm writes')
    (hnodup : (writes.map Prod.fst).Nodup) (table : FactTable) :
    table.writeAll writes = table.writeAll writes' := by
  have hkeys : (writes.map Prod.fst).Perm (writes'.map Prod.fst) := h.map Prod.fst
  funext key
  by_cases hkey : key ∈ writes.map Prod.fst
  · obtain ⟨w, hw, rfl⟩ := List.mem_map.1 hkey
    rw [writeAll_of_nodup hnodup hw, writeAll_of_nodup (hkeys.nodup_iff.1 hnodup) (h.mem_iff.1 hw)]
  · rw [writeAll_of_not_mem hkey, writeAll_of_not_mem fun hmem => hkey (hkeys.mem_iff.2 hmem)]

end FactTable

/-- There are as many different keys as keys exactly if no key comes twice. -/
theorem length_dedup_eq_iff {α : Type} [DecidableEq α] {l : List α} :
    l.dedup.length = l.length ↔ l.Nodup :=
  ⟨fun h => List.dedup_eq_self.1 (l.dedup_sublist.eq_of_length h),
    fun h => by rw [h.dedup]⟩

end UsageBilling
