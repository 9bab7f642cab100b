import UsageBilling.Calendar.Timestamp

/-!
# Billing months

A month of a year, the unit of invoicing.  A year number is a signed 32-bit number and may lie
outside the calendar; then the first and the last day fall back to the two ends of the calendar.
December of the largest year number has no month after it, and so no last day at all.
-/

namespace UsageBilling

/-- The largest year number. -/
def maxYearNumber : Int := 2147483647

/-- A month of a year, from midnight to midnight of UTC. -/
structure BillingMonth where
  year : Int
  month : Nat
  month_mem : 1 ≤ month ∧ month ≤ 12
  deriving DecidableEq

namespace BillingMonth

/-- The month of a year, for month numbers from 1 to 12. -/
def ofNumbers? (year : Int) (month : Nat) : Option BillingMonth :=
  if h : 1 ≤ month ∧ month ≤ 12 then some ⟨year, month, h⟩ else none

/-- The first day of the month, or of the calendar if it lacks the month. -/
def firstDay (m : BillingMonth) : Date := (Date.ofYmd? m.year m.month 1).getD Date.min

/-- The year and month that follow, if the year has a number. -/
def next? (m : BillingMonth) : Option (Int × Nat) :=
  if m.month = 12 then if m.year + 1 ≤ maxYearNumber then some (m.year + 1, 1) else none
  else some (m.year, m.month + 1)

/-- The day before the month that follows, or the last day of the calendar if it lacks that day. -/
def lastDay? (m : BillingMonth) : Option Date :=
  m.next?.map fun (y, month) => ((Date.ofYmd? y month 1).bind Date.pred?).getD Date.max

/-- Midnight at the start of the first day. -/
def periodStart (m : BillingMonth) : Timestamp := Timestamp.midnight m.firstDay

/-- Midnight at the start of the last day. -/
def periodEnd? (m : BillingMonth) : Option Timestamp := m.lastDay?.map Timestamp.midnight

end BillingMonth

end UsageBilling
