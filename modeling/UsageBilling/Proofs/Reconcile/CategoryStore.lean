import Mathlib.Tactic.SplitIfs
import UsageBilling.Proofs.Session.Course

/-!
# Stores of categories

In a `CategoryStore` a target that is written is in the table as soon as its transaction is
committed, and not before.

* `Category.retargetAll` : a table after targets were written.
* `targetsFrom`, `committedTargets` : the targets that steps write and commit.
* `Orderly` : steps that list categories, write targets or ask the accounting system, with a commit
  for open transactions only.
* `CategoryStore.table_of_answers` : the table after such steps is the one before with the targets
  written that they commit.
* `Shelf.store` : a store in memory, with commits and answers that fail.
-/

namespace UsageBilling

open Session

variable {σ : Type}

/-! ### Tables of categories -/

/-- A new target for the category of an identifier. -/
abbrev TargetWrite := Uuid × Option String

namespace Category

/-- The categories after a target was written. -/
def retarget (table : List Category) (write : TargetWrite) : List Category :=
  table.map fun c => if c.id = write.1 then { c with target := write.2 } else c

/-- The categories after targets were written, one after the other. -/
def retargetAll (table : List Category) (writes : List TargetWrite) : List Category :=
  writes.foldl retarget table

theorem retargetAll_append (table : List Category) (writes writes' : List TargetWrite) :
    retargetAll table (writes ++ writes') = retargetAll (retargetAll table writes) writes' :=
  List.foldl_append

theorem mem_retarget_of_ne {table : List Category} {write : TargetWrite} {c : Category}
    (hc : c ∈ table) (hne : c.id ≠ write.1) : c ∈ retarget table write :=
  List.mem_map.2 ⟨c, hc, if_neg hne⟩

end Category

/-! ### What steps commit -/

/-- The targets written in the open transaction, if one is known to be open. -/
def Event.opened (written : Option (List TargetWrite)) : Event → Option (List TargetWrite)
  | .control .start none => some []
  | .control .readOnly none | .statement .listCategories (.ok _) => written
  | .statement (.setCategoryTarget category target) (.ok _) =>
    written.map (· ++ [(category, target)])
  | _ => none

/-- The targets that a step commits. -/
def Event.commits (written : Option (List TargetWrite)) : Event → List TargetWrite
  | .control .commit none => written.getD []
  | _ => []

/-- The targets that steps write and commit, after those written in the open transaction. -/
def targetsFrom : Option (List TargetWrite) → List Event → List TargetWrite
  | _, [] => []
  | written, e :: steps => e.commits written ++ targetsFrom (e.opened written) steps

/-- The targets that steps write and commit. -/
def committedTargets (steps : List Event) : List TargetWrite := targetsFrom none steps

/-- A step lists categories, writes a target, asks the accounting system or belongs to a
transaction; a commit is for a transaction that is open. -/
def Event.InPlace (written : Option (List TargetWrite)) : Event → Prop
  | .control .commit none => written.isSome
  | .control _ _ | .rollback | .reconciliation _ _ => True
  | .statement .listCategories _ | .statement (.setCategoryTarget _ _) _ => True
  | .statement _ _ | .evaluation _ _ _ | .progress _ _ => False

/-- All steps are in place. -/
def Orderly : Option (List TargetWrite) → List Event → Prop
  | _, [] => True
  | written, e :: steps => e.InPlace written ∧ Orderly (e.opened written) steps

theorem Orderly.of_append {written : Option (List TargetWrite)} {steps steps' : List Event}
    (h : Orderly written (steps ++ steps')) : Orderly written steps := by
  induction steps generalizing written with
  | nil => trivial
  | cons e steps ih => exact ⟨h.1, ih h.2⟩

/-- What is committed first stays the first of what is committed. -/
theorem targetsFrom_prefix (written : Option (List TargetWrite)) (steps steps' : List Event) :
    targetsFrom written steps <+: targetsFrom written (steps ++ steps') := by
  induction steps generalizing written with
  | nil => exact List.nil_prefix
  | cons e steps ih => exact (List.prefix_append_right_inj _).2 (ih (e.opened written))

/-! ### Stores of categories -/

/-- An outside with a table of categories.  A target is in the table when its transaction is
committed; a statement that is refused changes nothing.  When the accounting system answers, then
with a target that depends on the source only. -/
structure CategoryStore (σ : Type) extends Environment σ where
  table : σ → List Category
  /-- The targets written in the open transaction. -/
  pending : σ → List TargetWrite
  /-- The target of a source, in the accounting system. -/
  goal : String → String
  started : ∀ {s s'}, control .start s = (none, s') → table s' = table s ∧ pending s' = []
  restricted : ∀ {s s'}, control .readOnly s = (none, s') →
    table s' = table s ∧ pending s' = pending s
  committed : ∀ {s s'}, control .commit s = (none, s') →
    table s' = Category.retargetAll (table s) (pending s)
  control_refused : ∀ {k r s s'}, control k s = (some r, s') → table s' = table s
  listed : ∀ {outcome s s'}, execute .listCategories s = (.ok outcome, s') →
    table s' = table s ∧ pending s' = pending s ∧
      (pending s = [] → outcome.toRows.mapM Category.ofRow? = some (table s))
  targeted : ∀ {category target outcome s s'},
    execute (.setCategoryTarget category target) s = (.ok outcome, s') →
      table s' = table s ∧ pending s' = pending s ++ [(category, target)]
  execute_refused : ∀ {q r s s'}, execute q s = (.error r, s') → table s' = table s
  reconciled : ∀ {mapping answer s s'}, reconcile mapping s = (answer, s') →
    table s' = table s ∧ ∀ told, answer = .ok told → told.target = goal mapping.source

namespace CategoryStore

variable {store : CategoryStore σ} {s s' : σ} {written : Option (List TargetWrite)}
  {steps : List Event}

/-- A step changes the table by what it commits. -/
theorem table_of_answered {e : Event} (he : e.Answered store.toEnvironment s s')
    (hplace : e.InPlace written) (hwritten : ∀ w, written = some w → store.pending s = w) :
    store.table s' = Category.retargetAll (store.table s) (e.commits written) ∧
      ∀ w, e.opened written = some w → store.pending s' = w := by
  cases e with
  | control k refusal =>
    cases refusal with
    | some r =>
      refine ⟨?_, ?_⟩
      · rw [store.control_refused he]
        cases k <;> rfl
      · cases k <;> simp [Event.opened]
    | none =>
      cases k with
      | start =>
        obtain ⟨htable, hpending⟩ := store.started he
        refine ⟨htable, ?_⟩
        rintro _ ⟨⟩
        exact hpending
      | readOnly =>
        obtain ⟨htable, hpending⟩ := store.restricted he
        exact ⟨htable, fun w hw => hpending.trans (hwritten w hw)⟩
      | commit =>
        obtain ⟨w, rfl⟩ := Option.isSome_iff_exists.1 hplace
        refine ⟨?_, by simp [Event.opened]⟩
        rw [store.committed he, hwritten w rfl]
        rfl
  | rollback =>
    obtain rfl := he
    exact ⟨rfl, by simp [Event.opened]⟩
  | statement q reply =>
    cases reply with
    | error r =>
      refine ⟨store.execute_refused he, ?_⟩
      cases q <;> simp [Event.opened]
    | ok outcome =>
      cases q with
      | listCategories =>
        obtain ⟨htable, hpending, -⟩ := store.listed he
        exact ⟨htable, fun w hw => hpending.trans (hwritten w hw)⟩
      | setCategoryTarget category target =>
        obtain ⟨htable, hpending⟩ := store.targeted he
        refine ⟨htable, fun w hw => ?_⟩
        obtain ⟨w', hw', rfl⟩ := Option.map_eq_some_iff.1 hw
        rw [hpending, hwritten w' hw']
      | _ => cases hplace
  | evaluation | progress => cases hplace
  | reconciliation mapping answer => exact ⟨(store.reconciled he).1, by simp [Event.opened]⟩

/-- **The table changes by what is committed**, and by nothing else. -/
theorem table_of_answers (h : store.Answers s steps s') (horderly : Orderly written steps)
    (hwritten : ∀ w, written = some w → store.pending s = w) :
    store.table s' = Category.retargetAll (store.table s) (targetsFrom written steps) := by
  induction h generalizing written with
  | nil => rfl
  | cons he _ ih =>
    obtain ⟨htable, hopened⟩ := table_of_answered he horderly.1 hwritten
    rw [ih horderly.2 hopened, htable, targetsFrom, Category.retargetAll_append]

/-- What the accounting system answers is the target of the source. -/
theorem told_of_answers (h : store.Answers s steps s') {mapping told : CategoryMapping}
    (hmem : .reconciliation mapping (.ok told) ∈ steps) :
    told.target = store.goal mapping.source := by
  induction h with
  | nil => cases hmem
  | cons he _ ih =>
    rcases List.mem_cons.1 hmem with rfl | hmem
    · exact (store.reconciled he).2 told rfl
    · exact ih hmem

end CategoryStore

/-! ### A store in memory -/

/-- The row of a category. -/
def categoryRow (c : Category) : Row :=
  [("id", .uuid c.id), ("source", .text c.source), ("target", c.target.elim .null .text)]

theorem mapM_categoryRow (table : List Category) :
    (table.map categoryRow).mapM Category.ofRow? = some table := by
  have hrow (c : Category) : Category.ofRow? (categoryRow c) = some c := by
    rcases c with ⟨id, source, _ | target⟩ <;> rfl
  induction table with
  | nil => rfl
  | cons c table ih => simp [List.mapM_cons, hrow, ih]

/-- A table, the targets written in the open transaction, and whether the commits and the answers to
come fail. -/
structure Shelf where
  table : List Category
  pending : List TargetWrite
  faults : List Bool

namespace Shelf

/-- What fails at a fault. -/
def fault : Refusal := ⟨"08006", "connection failure"⟩

/-- The target of a source, of which one has none. -/
def goal (source : String) : String := if source = "internal" then "" else "erp-" ++ source

/-- Whether the next commit or answer fails, and what is left. -/
def next (s : Shelf) : Bool × Shelf := (s.faults.headD false, { s with faults := s.faults.tail })

def environment : Environment Shelf where
  reachable := fun _ => true
  control := fun k s =>
    match k with
    | .start => (none, { s with pending := [] })
    | .readOnly => (none, s)
    | .commit =>
      if s.next.1 then (some fault, s.next.2)
      else (none, { s.next.2 with table := Category.retargetAll s.table s.pending })
  execute := fun q s =>
    match q with
    | .listCategories => (.ok (.rows (s.table.map categoryRow)), s)
    | .setCategoryTarget category target =>
      (.ok (.affected 1), { s with pending := s.pending ++ [(category, target)] })
    | _ => (.error fault, s)
  evaluate := fun _ _ s => (.silent, s)
  reconcile := fun mapping s =>
    if s.next.1 then (.error ["no answer"], s.next.2)
    else (.ok ⟨mapping.source, goal mapping.source⟩, s.next.2)

def store : CategoryStore Shelf where
  toEnvironment := environment
  table := Shelf.table
  pending := Shelf.pending
  goal := goal
  started := by
    intro s s' h
    obtain rfl := congrArg Prod.snd h
    exact ⟨rfl, rfl⟩
  restricted := by
    intro s s' h
    obtain rfl := congrArg Prod.snd h
    exact ⟨rfl, rfl⟩
  committed := by
    intro s s' h
    simp only [environment] at h
    split_ifs at h <;> cases h
    rfl
  control_refused := by
    intro k r s s' h
    cases k with
    | commit =>
      simp only [environment] at h
      split_ifs at h <;> cases h
      rfl
    | _ => cases h
  listed := by
    intro outcome s s' h
    cases h
    exact ⟨rfl, rfl, fun _ => mapM_categoryRow s.table⟩
  targeted := by
    intro category target outcome s s' h
    cases h
    exact ⟨rfl, rfl⟩
  execute_refused := by
    intro q r s s' h
    cases q <;> cases h <;> rfl
  reconciled := by
    intro mapping answer s s' h
    simp only [environment] at h
    split_ifs at h <;> cases h
    · exact ⟨rfl, by simp⟩
    · exact ⟨rfl, by rintro _ ⟨⟩; rfl⟩

end Shelf

end UsageBilling
