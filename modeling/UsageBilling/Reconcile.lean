import UsageBilling.Store.Dimension

/-!
# Reconciling categories

Every category is offered to the accounting system, which answers with the target it has for it.
Only a changed target is written, in a transaction of its own.  The first failure ends the run;
what was written before stays.
-/

namespace UsageBilling

/-- How many categories there were, and how many got a new target. -/
structure ReconcileSummary where
  total : Nat
  updated : Nat
  deriving DecidableEq

namespace Category

/-- What the accounting system is offered. -/
def mapping (c : Category) : CategoryMapping := ⟨c.source, c.target.getD ""⟩

/-- The target to be stored, if it is another than the stored one.  An empty target is none. -/
def changedTarget? (c : Category) (answer : CategoryMapping) : Option (Option String) :=
  let target := if answer.target = "" then none else some answer.target
  if target = c.target then none else some target

end Category

namespace Reconcile

variable {σ : Type}

/-- What a failed reconciliation of a category says: its causes, from the outermost to the
innermost. -/
def failure (source : String) (causes : List String) : BillingError :=
  .reconciler (s!"category '{source}': " ++ ": ".intercalate causes)

/-- Offer a category to the accounting system. -/
def offer (c : Category) : Session σ CategoryMapping := do
  let answer ← Session.ask fun env => env.reconcile c.mapping
  Session.record (.reconciliation c.mapping answer)
  Session.ofExcept (failure c.source) answer

/-- Reconcile categories in order: how many got a new target. -/
def each : List Category → Session σ Nat
  | [] => pure 0
  | c :: rest => do
    let answer ← offer c
    match c.changedTarget? answer with
    | none => each rest
    | some target =>
      let _ ← Session.transaction .readWrite (Store.setCategoryTarget c.id target)
      (· + 1) <$> each rest

/-- Bring the targets of the stored categories up to date. -/
def categories : Session σ ReconcileSummary := do
  let all ← Session.transaction .readOnly Store.listCategories
  let updated ← each all
  pure ⟨all.length, updated⟩

end Reconcile

end UsageBilling
