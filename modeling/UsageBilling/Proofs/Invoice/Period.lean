import UsageBilling.Proofs.Calendar.Months
import UsageBilling.Proofs.Invoice.Reading

/-!
# The period of an invoice

An invoice is for the days from the first of its month to the last.  A month number is checked when
the month is made, a year number is not: where the calendar lacks the year, the period falls back to
the whole calendar, and the largest year number has no month after December at all.

* `BillingMonth.hasOwnPeriod_iff` : a month has its own period exactly if the calendar has its year.
* `BillingMonth.fallback_of_not_inYears` : the period of every other month.
* `Invoice.generate_periods` : the period of a month is that of all its invoices.
-/

namespace UsageBilling

open Timestamp

/-- Midnight at the start of a date is on that date. -/
theorem date_midnight (d : Date) : (midnight d).date = (d.year, d.month, d.day) := by
  obtain ⟨-, -, hcivil⟩ := d.inCalendar
  have hday : (midnight d).dayNumber = d.dayNumber := by
    simp only [Timestamp.dayNumber, midnight]
    omega
  rw [Timestamp.date, hday]
  exact civil_eq_iff.2 ⟨hcivil, rfl⟩

namespace BillingMonth

variable {m : BillingMonth} {start stop : Timestamp}

/-- From midnight at the start of the first day of the month to midnight at that of the last. -/
structure IsPeriod (m : BillingMonth) (start stop : Timestamp) : Prop where
  first : start.date = (m.year, m.month, 1)
  last : stop.date = (m.year, m.month, m.dayCount)
  start_midnight : start.secondOfDay = 0 ∧ start.nanos = 0
  stop_midnight : stop.secondOfDay = 0 ∧ stop.nanos = 0

/-- What the month gives as its period is in the month, from one end to the other. -/
def HasOwnPeriod (m : BillingMonth) : Prop :=
  ∃ stop, m.periodEnd? = some stop ∧ m.IsPeriod m.periodStart stop

/-- Decembers of the largest year number, which no month follows. -/
def IsLast (m : BillingMonth) : Prop := m.month = 12 ∧ maxYearNumber ≤ m.year

instance (m : BillingMonth) : Decidable m.IsLast := inferInstanceAs (Decidable (_ ∧ _))

/-! ### Months of the calendar -/

theorem secondOfDay_midnight (d : Date) : (midnight d).secondOfDay = 0 := by
  simp only [secondOfDay, midnight]
  omega

theorem isPeriod_of_inYears (h : m.InYears) (hstop : m.periodEnd? = some stop) :
    m.IsPeriod m.periodStart stop := by
  rw [periodEnd?, lastDay?_eq h, Option.map_some] at hstop
  obtain rfl := Option.some.inj hstop
  refine ⟨?_, date_midnight _, ⟨secondOfDay_midnight _, rfl⟩, ⟨secondOfDay_midnight _, rfl⟩⟩
  rw [periodStart, date_midnight, firstDay_eq h]

theorem IsPeriod.inYears (h : m.IsPeriod start stop) : m.InYears := by
  obtain ⟨hlow, hhigh, -⟩ := Timestamp.inCalendar_date h.first
  exact ⟨hlow, hhigh⟩

/-- **A month has its own period** exactly if the calendar has its year. -/
theorem hasOwnPeriod_iff : m.HasOwnPeriod ↔ m.InYears := by
  constructor
  · rintro ⟨stop, -, hperiod⟩
    exact hperiod.inYears
  · intro h
    obtain ⟨stop, hstop, -⟩ := exists_periodEnd h
    exact ⟨stop, hstop, isPeriod_of_inYears h hstop⟩

/-! ### Months outside the calendar -/

theorem next?_eq_none_iff : m.next? = none ↔ m.IsLast := by
  unfold next? IsLast
  split
  · next hdec =>
    split
    · next hnumber => simp only [reduceCtorEq, false_iff]; omega
    · next hnumber => simp only [true_iff]; omega
  · next hdec => simp only [reduceCtorEq, false_iff]; omega

/-- Outside the calendar the first of the month after has no day before it, if it is a date. -/
theorem bind_pred?_of_not_inYears (h : ¬ m.InYears) {year : Int} {month : Nat}
    (hnext : m.next? = some (year, month)) : (Date.ofYmd? year month 1).bind Date.pred? = none := by
  have hover : ¬ InCalendar m.year 12 31 := fun hin => h ⟨hin.1, hin.2.1⟩
  unfold next? at hnext
  split at hnext
  · split at hnext
    · obtain ⟨rfl, rfl⟩ := Prod.mk.inj (Option.some.inj hnext)
      -- the first of January is a date if the calendar starts there
      by_cases hin : InCalendar (m.year + 1) 1 1
      · have hbefore : ¬ InCalendar (m.year + 1 - 1) 12 31 := by rwa [Int.add_sub_cancel]
        rw [Date.ofYmd?, dif_pos hin, Option.bind_some, Date.pred?, if_neg (by decide : ¬ 1 < 1),
          if_neg (by decide : ¬ 1 < 1), Date.ofYmd?, dif_neg hbefore]
      · rw [Date.ofYmd?, dif_neg hin, Option.bind_none]
    · cases hnext
  · obtain ⟨rfl, rfl⟩ := Prod.mk.inj (Option.some.inj hnext)
    have hnot : ¬ InCalendar m.year (m.month + 1) 1 := fun hin => h ⟨hin.1, hin.2.1⟩
    rw [Date.ofYmd?, dif_neg hnot, Option.bind_none]

/-- **The period of a month that the calendar lacks** is the whole calendar, but for the last of all
months, which has no end. -/
theorem fallback_of_not_inYears (h : ¬ m.InYears) : m.periodStart = midnight Date.min ∧
    m.periodEnd? = if m.IsLast then none else some (midnight Date.max) := by
  have hnot : ¬ InCalendar m.year m.month 1 := fun hin => h ⟨hin.1, hin.2.1⟩
  refine ⟨by rw [periodStart, firstDay, Date.ofYmd?, dif_neg hnot, Option.getD_none], ?_⟩
  rw [periodEnd?, lastDay?]
  cases hnext : m.next? with
  | none => rw [if_pos (next?_eq_none_iff.1 hnext), Option.map_none, Option.map_none]
  | some following =>
    obtain ⟨year, month⟩ := following
    have hsome : ¬ m.IsLast := by
      rw [← next?_eq_none_iff, hnext]
      exact Option.some_ne_none _
    simp only [if_neg hsome, Option.map_some, bind_pred?_of_not_inYears h hnext, Option.getD_none]

/-- **The period does not end before it starts**, if it ends. -/
theorem not_stop_lt_start (hstop : m.periodEnd? = some stop) : ¬ stop < m.periodStart := by
  by_cases h : m.InYears
  · obtain ⟨stop', hstop', hend⟩ := exists_periodEnd h
    obtain rfl := Option.some.inj (hstop.symm.trans hstop')
    have hstart := seconds_periodStart h
    have hstart' : m.periodStart.nanos = 0 := rfl
    have hlength := m.dayCount_pos
    rw [Timestamp.lt_iff, hstart', hstart]
    unfold secondsPerDay at hend
    omega
  · obtain ⟨hstart, hend⟩ := fallback_of_not_inYears h
    rw [hend] at hstop
    split at hstop
    · cases hstop
    · obtain rfl := Option.some.inj hstop
      rw [hstart]
      decide

end BillingMonth

namespace Invoice

open Session

variable {σ : Type} {m : BillingMonth} {tenant : Tenant} {invoice : Invoice} {invoices : List Invoice}
  {steps : List Event}

/-! ### The invoices -/

theorem TenantSteps.period (h : TenantSteps m tenant invoice steps) :
    invoice.periodStart = m.periodStart ∧ m.periodEnd? = some invoice.periodEnd := by
  obtain ⟨-, -, hstop, -⟩ := h
  exact ⟨rfl, hstop⟩

theorem MonthSteps.period (h : MonthSteps m invoices steps) (hmem : invoice ∈ invoices) :
    invoice.periodStart = m.periodStart ∧ m.periodEnd? = some invoice.periodEnd := by
  obtain @⟨-, tenants, parts, -, hparts⟩ := h
  obtain ⟨part, hpart, rfl⟩ := List.mem_map.1 hmem
  have hperiods : List.Forall₂ (fun part tenant => (part.1.periodStart = m.periodStart ∧
      m.periodEnd? = some part.1.periodEnd) ∧ TenantSteps m tenant part.1 part.2) parts tenants :=
    hparts.flip.imp fun _ _ hsteps => ⟨hsteps.period, hsteps⟩
  exact ((List.forall₂_and_left _ _).1 hperiods).1 part hpart

/-- **The period of a month is that of all its invoices.**  A month number from 1 to 12 is accepted
with any year.  If the calendar has the year, the period runs from the month's first day to its
last, and no other month has its own period: outside the calendar, the period is the whole calendar,
or has no end.  Where there is an end, it is not before the start; and every invoice of the month
has this period. -/
theorem generate_periods {year : Int} {number : Nat}
    (h : BillingMonth.ofNumbers? year number = some m) :
    (m.year = year ∧ m.month = number) ∧ (m.HasOwnPeriod ↔ m.InYears) ∧
      (¬ m.InYears → m.periodStart = midnight Date.min ∧
        m.periodEnd? = if m.IsLast then none else some (midnight Date.max)) ∧
      (∀ stop, m.periodEnd? = some stop → ¬ stop < m.periodStart) ∧
      ∀ (env : Environment σ) (w w' : World σ) (invoices : List Invoice),
        runIn env w (generate year number) = (.ok invoices, w') → ∀ invoice ∈ invoices,
          invoice.periodStart = m.periodStart ∧ m.periodEnd? = some invoice.periodEnd ∧
            (m.IsPeriod invoice.periodStart invoice.periodEnd ↔ m.InYears) := by
  refine ⟨ofNumbers?_eq_some.1 h, BillingMonth.hasOwnPeriod_iff,
    BillingMonth.fallback_of_not_inYears, fun _ => BillingMonth.not_stop_lt_start, ?_⟩
  intro env w w' invoices hrun invoice hmem
  rw [generate, h] at hrun
  obtain ⟨_, -, inner, hmonth, -⟩ := (Yields.transaction yields_readMonth) env w invoices w' hrun
  obtain ⟨hstart, hstop⟩ := hmonth.period hmem
  refine ⟨hstart, hstop, BillingMonth.IsPeriod.inYears, fun hyears => ?_⟩
  rw [hstart]
  exact BillingMonth.isPeriod_of_inYears hyears hstop

/-- The March of `marchRun`. -/
def march : BillingMonth := ⟨2020, 3, by decide⟩

/-- A February long after the end of the calendar. -/
def farFebruary : BillingMonth := { BillingMonth.earlyFebruary with year := 300000 }

/-- The December of the largest year number. -/
def lastDecember : BillingMonth := ⟨maxYearNumber, 12, by decide⟩

theorem generate_periods_march :
    (BillingMonth.ofNumbers? 2020 3 = some march ∧ march.InYears ∧ ∃ invoices,
      marchRun = (.ok invoices, marchRun.2) ∧ invoices.length = 2 ∧
        ∀ invoice ∈ invoices, march.IsPeriod invoice.periodStart invoice.periodEnd) ∧
      BillingMonth.ofNumbers? 300000 2 = some farFebruary ∧ ¬ farFebruary.HasOwnPeriod := by
  have hmarch : BillingMonth.ofNumbers? 2020 3 = some march := rfl
  have hyears : march.InYears := by decide
  have hfar : BillingMonth.ofNumbers? 300000 2 = some farFebruary := rfl
  obtain ⟨invoices, hrun, hitems⟩ := exists_marchRun_eq
  have hlength : invoices.length = 2 := by simpa [itemCounts] using congrArg List.length hitems
  obtain ⟨-, -, -, -, hperiods⟩ := @generate_periods Script _ _ _ hmarch
  obtain ⟨-, hown, -⟩ := @generate_periods Script _ _ _ hfar
  refine ⟨⟨hmarch, hyears, invoices, hrun, hlength, fun invoice hmem => ?_⟩, hfar, ?_⟩
  · obtain ⟨-, -, hperiod⟩ := hperiods _ _ _ invoices hrun invoice hmem
    exact hperiod.2 hyears
  · rw [hown]
    decide

/-! ### A month outside the calendar -/

/-- A tenant without a category. -/
def lonelyScript : Script where
  reachable := true
  faults := []
  replies := [.ok (.rows [Report.anyRow 1 "acme"]), .ok (.rows [])]
  evaluations := []
  reconciliations := []

/-- How the invoices of the far February are generated. -/
def farRun : Except Stop (List Invoice) × World Script :=
  runIn Script.environment ⟨lonelyScript, [], .zero⟩ (generate 300000 2)

/-- **A month that the calendar lacks is accepted**, and invoiced for the whole calendar; the last
December has no last day. -/
theorem generate_outside_calendar :
    (BillingMonth.ofNumbers? 300000 2 = some farFebruary ∧ farFebruary.firstDay = Date.min ∧
      farFebruary.lastDay? = some Date.max) ∧
      (∃ invoice, farRun.1.toOption = some [invoice] ∧
        invoice.periodStart = midnight Date.min ∧ invoice.periodEnd = midnight Date.max ∧
          ¬ farFebruary.IsPeriod invoice.periodStart invoice.periodEnd) ∧
      BillingMonth.ofNumbers? maxYearNumber 12 = some lastDecember ∧
        lastDecember.lastDay? = none := by
  have hperiods : (farRun.1.toOption.map fun invoices =>
      invoices.map fun i => (i.periodStart, i.periodEnd)) =
        some [(midnight Date.min, midnight Date.max)] := by decide +kernel
  obtain ⟨invoices, hrun, hinvoices⟩ := Option.map_eq_some_iff.1 hperiods
  obtain ⟨invoice, rfl, hperiod⟩ := List.map_eq_singleton_iff.1 hinvoices
  obtain ⟨hstart, hstop⟩ := Prod.mk.inj hperiod
  refine ⟨⟨rfl, by decide, by decide⟩, ⟨invoice, hrun, hstart, hstop, fun h => ?_⟩, rfl, by decide⟩
  exact absurd h.inYears (by decide)

end Invoice

end UsageBilling
