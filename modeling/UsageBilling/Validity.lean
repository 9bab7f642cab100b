import UsageBilling.Calendar.Rfc3339

/-!
# Times of validity

Catalog records are in effect during a half-open interval `[start, stop)`, either end of which may
be missing.  The store keeps ranges of time with any kind of bounds; `Validity.ofRange?` accepts
exactly those of that shape, and `Validity.toRange` is its inverse.
-/

namespace UsageBilling

/-- The half-open interval `[start, stop)`. -/
structure Validity where
  /-- Inclusive, `none` for unbounded. -/
  start : Option Timestamp
  /-- Exclusive, `none` for unbounded. -/
  stop : Option Timestamp
  deriving DecidableEq

/-- One end of a range of time. -/
inductive Bound where
  | unbounded
  | included (t : Timestamp)
  | excluded (t : Timestamp)
  deriving DecidableEq

/-- A range of time with any kind of bounds. -/
structure TimeRange where
  lower : Bound
  upper : Bound
  deriving DecidableEq

/-- The form of a bound in messages. -/
def Bound.render : Bound → String
  | .unbounded => "Unbounded"
  | .included t => "Included(" ++ t.rfc3339 "Z" ++ ")"
  | .excluded t => "Excluded(" ++ t.rfc3339 "Z" ++ ")"

/-- The form of a range in messages. -/
def TimeRange.render (r : TimeRange) : String := r.lower.render ++ ".." ++ r.upper.render

namespace Validity

/-- All of time. -/
def unbounded : Validity := ⟨none, none⟩

/-- `[start, stop)`. -/
def between (start stop : Timestamp) : Validity := ⟨some start, some stop⟩

/-- From `start` on. -/
def since (start : Timestamp) : Validity := ⟨some start, none⟩

/-- Before `stop`. -/
def before (stop : Timestamp) : Validity := ⟨none, some stop⟩

/-- The range the store keeps. -/
def toRange (v : Validity) : TimeRange where
  lower := v.start.elim .unbounded .included
  upper := v.stop.elim .unbounded .excluded

/-- The interval of a range whose lower bound is not exclusive and whose upper bound is not
inclusive. -/
def ofRange? (r : TimeRange) : Option Validity := do
  let start ← match r.lower with
    | .unbounded => some none
    | .included t => some (some t)
    | .excluded _ => none
  let stop ← match r.upper with
    | .unbounded => some none
    | .excluded t => some (some t)
    | .included _ => none
  some ⟨start, stop⟩

/-- The interval covers the instant. -/
def Contains (v : Validity) (t : Timestamp) : Prop :=
  (∀ s, v.start = some s → ¬ t < s) ∧ ∀ s, v.stop = some s → t < s

@[simp] theorem ofRange?_toRange (v : Validity) : ofRange? v.toRange = some v := by
  obtain ⟨start, stop⟩ := v
  cases start <;> cases stop <;> rfl

theorem toRange_of_ofRange? {r : TimeRange} {v : Validity} (h : ofRange? r = some v) :
    v.toRange = r := by
  obtain ⟨lower, upper⟩ := r
  cases lower <;> cases upper <;> simp [ofRange?] at h <;> subst h <;> rfl

end Validity

end UsageBilling
