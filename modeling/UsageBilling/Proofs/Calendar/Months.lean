import Mathlib.Logic.ExistsUnique
import UsageBilling.Calendar.BillingMonth
import UsageBilling.Proofs.Calendar.Civil
import UsageBilling.Proofs.Calendar.Hours

/-!
# The hours of a billing month

An hour is stored under the year and month of its `HourBucket`, and invoiced with the month whose
period it lies in.  The two agree.

* `BillingMonth.covers_iff` : a month covers exactly the instants that are filed under it.
* `BillingMonth.existsUnique_covers` : every instant lies in one month.
* `BillingMonth.firstDayNumber_of_next` : the next month starts when the last day of this one ends.
* `BillingMonth.partition_hours` : the hours of the calendar are divided among the months, and
  `hours` lists those of a month, 24 for each of its days.
-/

namespace UsageBilling

open Timestamp

/-- Seconds in a day. -/
def secondsPerDay : Int := 86400

/-- The hour is stored under the month. -/
def HourBucket.FiledUnder (b : HourBucket) (m : BillingMonth) : Prop :=
  b.year = m.year ∧ b.month = m.month

namespace BillingMonth

variable {m next : BillingMonth} {t : Timestamp}

/-- The calendar has the year of the month. -/
def InYears (m : BillingMonth) : Prop := minYear ≤ m.year ∧ m.year ≤ maxYear

instance (m : BillingMonth) : Decidable m.InYears := inferInstanceAs (Decidable (_ ∧ _))

/-- The number of the month in the count of all months. -/
def index (m : BillingMonth) : Int := 12 * m.year + m.month

/-- How many days the month has. -/
def dayCount (m : BillingMonth) : Nat := daysInMonth m.year m.month

/-- The day number of the first day. -/
def firstDayNumber (m : BillingMonth) : Int := dayNumber m.year m.month 1

/-- The instant lies between the start of the first day and the end of the last. -/
def Covers (m : BillingMonth) (t : Timestamp) : Prop :=
  ∃ stop, m.periodEnd? = some stop ∧ m.periodStart.seconds ≤ t.seconds ∧
    t.seconds < stop.seconds + secondsPerDay

/-! ### The first and the last day -/

theorem inCalendar_of_mem (h : m.InYears) {d : Nat} (hd : 1 ≤ d) (hd' : d ≤ m.dayCount) :
    InCalendar m.year m.month d := ⟨h.1, h.2, m.month_mem.1, m.month_mem.2, hd, hd'⟩

theorem dayCount_pos (m : BillingMonth) : 1 ≤ m.dayCount := by
  have hlength : 28 ≤ m.dayCount := daysInMonth_pos m.year m.month
  omega

theorem firstDay_eq (h : m.InYears) :
    m.firstDay = ⟨m.year, m.month, 1, inCalendar_of_mem h (Nat.le_refl 1) m.dayCount_pos⟩ := by
  rw [firstDay, Date.ofYmd?, dif_pos (inCalendar_of_mem h (Nat.le_refl 1) m.dayCount_pos),
    Option.getD_some]

theorem dayNumber_firstDay (h : m.InYears) : m.firstDay.dayNumber = m.firstDayNumber := by
  rw [firstDay_eq h]
  rfl

/-- In the calendar, the day before the first of the next month is the last of this one. -/
theorem pred?_firstDay_next {year : Int} {month : Nat}
    (hnext : m.next? = some (year, month)) (hin : InCalendar year month 1) :
    Date.pred? ⟨year, month, 1, hin⟩ = Date.ofYmd? m.year m.month m.dayCount := by
  obtain ⟨hm, hm'⟩ := m.month_mem
  unfold next? at hnext
  split at hnext
  · next hdec =>
    split at hnext
    · obtain ⟨rfl, rfl⟩ := Prod.mk.inj (Option.some.inj hnext)
      have hdays : m.dayCount = 31 := by simp [dayCount, hdec, daysInMonth]
      rw [hdays, hdec]
      simp [Date.pred?]
    · cases hnext
  · obtain ⟨rfl, rfl⟩ := Prod.mk.inj (Option.some.inj hnext)
    simp [Date.pred?, show 0 < m.month by omega, dayCount]

/-- A month of the calendar has a next one, which is in the calendar again unless that ends here. -/
theorem exists_next (h : m.InYears) : ∃ year month, m.next? = some (year, month) ∧
    (InCalendar year month 1 ∨
      (¬ InCalendar year month 1 ∧ m.year = maxYear ∧ m.month = 12)) := by
  obtain ⟨hlow, hhigh⟩ := h
  obtain ⟨hm, hm'⟩ := m.month_mem
  by_cases hdec : m.month = 12
  · have hnumber : m.year + 1 ≤ maxYearNumber := by
      unfold maxYear at hhigh
      unfold maxYearNumber
      omega
    refine ⟨m.year + 1, 1, by rw [next?, if_pos hdec, if_pos hnumber], ?_⟩
    by_cases hend : m.year = maxYear
    · refine .inr ⟨?_, hend, hdec⟩
      rintro ⟨-, hle, -⟩
      omega
    · have hday : 1 ≤ daysInMonth (m.year + 1) 1 := Nat.le_trans (by omega) (daysInMonth_pos _ _)
      exact .inl ⟨by omega, by omega, by omega, by omega, by omega, hday⟩
  · have hday : 1 ≤ daysInMonth m.year (m.month + 1) :=
      Nat.le_trans (by omega) (daysInMonth_pos _ _)
    exact ⟨m.year, m.month + 1, by rw [next?, if_neg hdec],
      .inl ⟨hlow, hhigh, by omega, by omega, by omega, hday⟩⟩

theorem lastDay?_eq (h : m.InYears) :
    m.lastDay? =
      some ⟨m.year, m.month, m.dayCount, inCalendar_of_mem h m.dayCount_pos (Nat.le_refl _)⟩ := by
  have hlast := inCalendar_of_mem h m.dayCount_pos (Nat.le_refl _)
  obtain ⟨year, month, hnext, hcases⟩ := exists_next h
  have hbefore : m.lastDay? =
      some (((Date.ofYmd? year month 1).bind Date.pred?).getD Date.max) := by
    rw [lastDay?, hnext]
    rfl
  rw [hbefore]
  rcases hcases with hin | ⟨hover, hyear, hdec⟩
  · rw [Date.ofYmd?, dif_pos hin, Option.bind_some, pred?_firstDay_next hnext hin, Date.ofYmd?,
      dif_pos hlast, Option.getD_some]
  · -- the calendar ends with the month
    have hdays : m.dayCount = 31 := by simp [dayCount, hdec, daysInMonth]
    rw [Date.ofYmd?, dif_neg hover, Option.bind_none, Option.getD_none]
    simp [Date.max, hyear, hdec, hdays]

/-! ### The period -/

theorem seconds_periodStart (h : m.InYears) : m.periodStart.seconds = 86400 * m.firstDayNumber :=
  congrArg (86400 * ·) (dayNumber_firstDay h)

/-- The last day starts as many days after the first as the month has, but one. -/
theorem exists_periodEnd (h : m.InYears) : ∃ stop, m.periodEnd? = some stop ∧
    stop.seconds + secondsPerDay = 86400 * (m.firstDayNumber + m.dayCount) := by
  refine ⟨_, by rw [periodEnd?, lastDay?_eq h, Option.map_some], ?_⟩
  simp only [midnight, Date.dayNumber, dayNumber, firstDayNumber, secondsPerDay]
  omega

theorem filedUnder_iff : (HourBucket.ofTimestamp t).FiledUnder m ↔
    m.firstDayNumber ≤ t.dayNumber ∧ t.dayNumber < m.firstDayNumber + m.dayCount :=
  civil_mem_month_iff m.month_mem.1 m.month_mem.2

/-- **A month covers what is filed under it.** -/
theorem covers_iff (h : m.InYears) : m.Covers t ↔ (HourBucket.ofTimestamp t).FiledUnder m := by
  obtain ⟨stop, hstop, hend⟩ := exists_periodEnd h
  rw [filedUnder_iff, Covers]
  simp only [hstop, Option.some.injEq, exists_eq_left', seconds_periodStart h, hend]
  unfold Timestamp.dayNumber
  omega

/-! ### One month after the other -/

/-- The next month starts when the last day of this one ends. -/
theorem firstDayNumber_of_next (hnext : next.index = m.index + 1) :
    next.firstDayNumber = m.firstDayNumber + m.dayCount := by
  obtain ⟨year, month, hm, hm'⟩ := m
  obtain ⟨year', month', hmonth, hmonth'⟩ := next
  simp only [index] at hnext
  simp only [firstDayNumber, dayNumber, dayCount]
  by_cases hdec : month = 12
  · subst hdec
    obtain rfl : year' = year + 1 := by omega
    obtain rfl : month' = 1 := by omega
    have hlength : daysBeforeMonth year 12 + daysInMonth year 12 = daysInYear year := by
      rw [← daysInMonths_year, ← daysBeforeMonth_eq, daysBeforeMonth_succ hm]
    have hjanuary : daysBeforeMonth (year + 1) 1 = 0 := rfl
    have hyears := daysBeforeYear_succ year
    rw [hjanuary]
    omega
  · obtain rfl : year' = year := by omega
    obtain rfl : month' = month + 1 := by omega
    rw [daysBeforeMonth_succ hm]
    omega

theorem eq_of_filedUnder {b : HourBucket} (h : b.FiledUnder m) (h' : b.FiledUnder next) :
    next = m := by
  obtain ⟨year, month, hm⟩ := m
  obtain ⟨year', month', hm'⟩ := next
  obtain ⟨rfl, rfl⟩ : b.year = year ∧ b.month = month := h
  obtain ⟨rfl, rfl⟩ : b.year = year' ∧ b.month = month' := h'
  rfl

/-- **Every instant lies in one month.** -/
theorem existsUnique_covers (t : Timestamp) : ∃! m : BillingMonth, m.InYears ∧ m.Covers t := by
  obtain ⟨y, month, d, hcivil⟩ : ∃ y month d, civil t.dayNumber = (y, month, d) := ⟨_, _, _, rfl⟩
  obtain ⟨⟨hm, hm', -, -⟩, -⟩ := civil_eq_iff.1 hcivil
  have hbucket : (HourBucket.ofTimestamp t).FiledUnder ⟨y, month, hm, hm'⟩ := by
    simp [HourBucket.FiledUnder, HourBucket.ofTimestamp, Timestamp.date, hcivil]
  have hyears : InYears ⟨y, month, hm, hm'⟩ := by
    obtain ⟨hlow, hhigh, -⟩ := Timestamp.inCalendar_date hcivil
    exact ⟨hlow, hhigh⟩
  refine ⟨⟨y, month, hm, hm'⟩, ⟨hyears, (covers_iff hyears).2 hbucket⟩, ?_⟩
  rintro m' ⟨hyears', hcovers⟩
  exact eq_of_filedUnder hbucket ((covers_iff hyears').1 hcovers)

/-! ### The hours of a month -/

/-- Rows of equal length, one after the other. -/
theorem flatMap_range {α : Type} (f : Nat → Nat → α) (rows width : Nat) :
    ((List.range rows).flatMap fun i => (List.range width).map (f i)) =
      (List.range (rows * width)).map fun k => f (k / width) (k % width) := by
  induction rows with
  | zero => simp
  | succ rows ih =>
    rw [List.range_succ, List.flatMap_append, ih, Nat.succ_mul, List.range_add, List.map_append,
      List.flatMap_singleton, List.map_map]
    congr 1
    refine List.map_congr_left fun k hk => ?_
    have hlt : k < width := List.mem_range.1 hk
    have hrow : (rows * width + k) / width = rows := by
      rw [Nat.mul_comm, Nat.mul_add_div (by omega), Nat.div_eq_of_lt hlt, Nat.add_zero]
    have hcolumn : (rows * width + k) % width = k := by
      rw [Nat.mul_comm, Nat.mul_add_mod, Nat.mod_eq_of_lt hlt]
    rw [Function.comp_apply, hrow, hcolumn]

/-- The hours from the start of a month up to the end of its last day. -/
theorem hours_eq (h : m.InYears) {after : Timestamp}
    (hafter : after.seconds = 86400 * (m.firstDayNumber + m.dayCount)) (hnanos : after.nanos = 0)
    (hsome : after.addHour?.isSome) :
    ∃ times, hours m.periodStart after = some times ∧ times.length = m.dayCount * 24 ∧
      ∀ i < times.length, times[i]? = m.periodStart.addHours? i := by
  have hstart := seconds_periodStart h
  have hstart' : m.periodStart.nanos = 0 := rfl
  have hcount : hourCount m.periodStart after = m.dayCount * 24 := by
    simp only [hourCount, hafter, hstart, hstart', hnanos, Nat.lt_irrefl, if_false]
    omega
  have hlimit := seconds_le_of_addHour? hsome
  have hpast : (m.periodStart.addHours? (hourCount m.periodStart after + 1)).isSome := by
    rw [isSome_addHours?_iff, hcount, hstart]
    push_cast
    omega
  obtain ⟨times, hspan, hlength, htimes⟩ := hourSpan_of_isSome (by rw [hstart']; decide) hpast
  exact ⟨times, hours_of_hourSpan hspan, hlength.trans hcount, htimes⟩

/-- An hour comes in the list exactly if it is filed under the month. -/
theorem mem_hours_iff (h : m.InYears) {times : List Timestamp}
    (hlength : times.length = m.dayCount * 24)
    (htimes : ∀ i < times.length, times[i]? = m.periodStart.addHours? i) :
    t ∈ times ↔ t.isHourStart ∧ (HourBucket.ofTimestamp t).FiledUnder m := by
  have hstart := seconds_periodStart h
  rw [isHourStart_iff, filedUnder_iff, List.mem_iff_getElem?]
  unfold Timestamp.dayNumber
  constructor
  · rintro ⟨i, hi⟩
    have hlt : i < times.length := (List.getElem?_eq_some_iff.1 hi).1
    rw [htimes i hlt, addHours?_eq_some, hstart] at hi
    obtain ⟨hseconds, hnanos⟩ := hi
    exact ⟨⟨by omega, hnanos⟩, by omega, by omega⟩
  · rintro ⟨⟨haligned, hnanos⟩, hlow, hhigh⟩
    -- as many hours after the start as its seconds say
    have hlt : ((t.seconds - m.periodStart.seconds) / 3600).toNat < times.length := by omega
    refine ⟨_, (htimes _ hlt).trans ?_⟩
    rw [addHours?_eq_some]
    exact ⟨by omega, hnanos⟩

/-- The days of the month in order, each with its 24 hours. -/
theorem map_place_hours (h : m.InYears) {times : List Timestamp}
    (hlength : times.length = m.dayCount * 24)
    (htimes : ∀ i < times.length, times[i]? = m.periodStart.addHours? i) :
    (times.map fun t => (HourBucket.ofTimestamp t).place) =
      (List.range m.dayCount).flatMap fun d => (List.range 24).map fun k =>
        (m.year, m.month, d + 1, k) := by
  rw [flatMap_range]
  refine List.ext_getElem (by simp [hlength]) fun i hi hi' => ?_
  rw [List.length_map] at hi
  have htime := htimes i hi
  rw [List.getElem?_eq_getElem hi, eq_comm, addHours?_eq_some, seconds_periodStart h]
    at htime
  rw [List.getElem_map, List.getElem_map, List.getElem_range]
  refine HourBucket.place_eq ⟨m.month_mem.1, m.month_mem.2, by omega, ?_⟩ (by omega) ?_
  · change i / 24 + 1 ≤ m.dayCount
    omega
  · rw [htime.1]
    unfold firstDayNumber dayNumber
    omega

/-! ### The months divide the hours -/

/-- What the hours of a month are, the last day of which starts at `stop`. -/
structure HoursOf (m : BillingMonth) (stop : Timestamp) : Prop where
  /-- An instant in the period is filed under the month, and no other is. -/
  filed_iff : ∀ t : Timestamp, (HourBucket.ofTimestamp t).FiledUnder m ↔
    m.periodStart.seconds ≤ t.seconds ∧ t.seconds < stop.seconds + secondsPerDay
  /-- The month that follows starts where this one ends. -/
  next_start : ∀ next : BillingMonth, next.InYears → next.index = m.index + 1 →
    next.periodStart.seconds = stop.seconds + secondsPerDay
  /-- Unless the calendar ends first, `hours` lists the hours of the month, 24 for each day. -/
  listed : ∀ after : Timestamp, after.seconds = stop.seconds + secondsPerDay → after.nanos = 0 →
    after.addHour?.isSome → ∃ times, hours m.periodStart after = some times ∧
      (∀ t, t ∈ times ↔ t.isHourStart ∧ (HourBucket.ofTimestamp t).FiledUnder m) ∧
      (times.map fun t => (HourBucket.ofTimestamp t).place) =
        (List.range m.dayCount).flatMap fun d => (List.range 24).map fun k =>
          (m.year, m.month, d + 1, k)

/-- **The months divide the hours of the calendar.**  A month of the calendar's years has a last
day; the hours stored under it are those from its start to the end of that day; the next month
follows without a gap; and every instant lies in exactly one month. -/
theorem partition_hours (m : BillingMonth) (h : m.InYears) :
    (∃ stop, m.periodEnd? = some stop ∧ HoursOf m stop) ∧
      ∀ t : Timestamp, ∃! m' : BillingMonth, m'.InYears ∧ m'.Covers t := by
  obtain ⟨stop, hstop, hend⟩ := exists_periodEnd h
  refine ⟨⟨stop, hstop, ?_⟩, existsUnique_covers⟩
  exact {
    filed_iff := fun t => by
      rw [← covers_iff h, Covers]
      simp only [hstop, Option.some.injEq, exists_eq_left']
    next_start := fun next hnext hfollows => by
      rw [hend, seconds_periodStart hnext, firstDayNumber_of_next hfollows]
    listed := fun after hafter hnanos hsome => by
      rw [hend] at hafter
      obtain ⟨times, hhours, hlength, htimes⟩ := hours_eq h hafter hnanos hsome
      exact ⟨times, hhours, fun t => mem_hours_iff h hlength htimes,
        map_place_hours h hlength htimes⟩ }

/-- February of a leap year long before the first. -/
def earlyFebruary : BillingMonth := ⟨-4, 2, by decide⟩

theorem partition_hours_early : earlyFebruary.InYears ∧ earlyFebruary.dayCount = 29 ∧
    (∃ stop, earlyFebruary.periodEnd? = some stop ∧ HoursOf earlyFebruary stop) ∧
      ∀ t : Timestamp, ∃! m' : BillingMonth, m'.InYears ∧ m'.Covers t :=
  ⟨by decide, by decide, partition_hours earlyFebruary (by decide)⟩

end BillingMonth

end UsageBilling
