import UsageBilling.Session

/-!
# Scripted outsides

A `Script` answers questions from lists prepared beforehand, one after the other, whatever is
asked.  When a list is used up, it answers with an error.
-/

namespace UsageBilling

/-- A statement about a transaction that is refused once, after `passed` successful ones of its
kind. -/
structure Fault where
  control : Control
  passed : Nat
  refusal : Refusal
  deriving DecidableEq

/-- The answers that are left. -/
structure Script where
  reachable : Bool
  faults : List Fault
  replies : List Reply
  evaluations : List Evaluation
  reconciliations : List Reconciliation

namespace Script

/-- The text of every answer beyond the last. -/
def exhausted : String := "script exhausted"

/-- Meet the next statement of a kind: the refusal that falls due, and the faults that are left. -/
def meet (c : Control) : List Fault → Option Refusal × List Fault
  | [] => (none, [])
  | fault :: rest =>
    let (refusal, rest) := meet c rest
    if fault.control = c then
      match fault.passed with
      | 0 => (some fault.refusal, rest)
      | n + 1 => (refusal, { fault with passed := n } :: rest)
    else (refusal, fault :: rest)

/-- Answer from the lists. -/
def environment : Environment Script where
  reachable := fun s => s.reachable
  control := fun c s =>
    let (refusal, faults) := meet c s.faults
    (refusal, { s with faults := faults })
  execute := fun _ s =>
    match s.replies with
    | [] => (.error ⟨"57014", exhausted⟩, s)
    | reply :: rest => (reply, { s with replies := rest })
  evaluate := fun _ _ s =>
    match s.evaluations with
    | [] => (.answered ⟨0⟩ (.error (.metricsSource (.transport exhausted))), s)
    | answer :: rest => (answer, { s with evaluations := rest })
  reconcile := fun _ s =>
    match s.reconciliations with
    | [] => (.error [exhausted], s)
    | answer :: rest => (answer, { s with reconciliations := rest })

end Script

end UsageBilling
