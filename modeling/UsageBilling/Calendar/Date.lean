/-!
# Civil dates

The proleptic Gregorian calendar, with a year 0 and negative years before it, from 1 January of
year -262143 to 31 December of year 262142.

* `Date.dayNumber` counts the days from 1 January 1970;
* `civil` is the year, month and day of any day number, found from a first guess of the year;
* `Date.min` and `Date.max` are the ends of the calendar, and `Date.dayNumber_mem` says that
  every date lies between their day numbers.
-/

namespace UsageBilling

/-- The first year of the calendar. -/
def minYear : Int := -262143

/-- The last year of the calendar. -/
def maxYear : Int := 262142

/-- Every fourth year has a leap day, of the full centuries only every fourth. -/
def isLeapYear (y : Int) : Bool := y % 4 = 0 && (y % 100 ≠ 0 || y % 400 = 0)

/-- The number of days in a month of a year. -/
def daysInMonth (y : Int) (m : Nat) : Nat :=
  if m = 2 then if isLeapYear y then 29 else 28
  else if m = 4 || m = 6 || m = 9 || m = 11 then 30
  else 31

/-- The days from 1 January of year 0 to 1 January of the year. -/
def daysBeforeYear (y : Int) : Int := 365 * y + (y + 3) / 4 - (y + 99) / 100 + (y + 399) / 400

/-- The days from 1 January to the first of the month. -/
def daysBeforeMonth (y : Int) : Nat → Nat
  | 0 => 0
  | 1 => 0
  | m + 2 => daysBeforeMonth y (m + 1) + daysInMonth y (m + 1)

/-- The days from 1 January of year 0 to 1 January 1970. -/
def epochDay : Int := 719528

/-- The day number of a year, month and day. -/
def dayNumber (y : Int) (m d : Nat) : Int :=
  daysBeforeYear y + daysBeforeMonth y m + d - 1 - epochDay

/-- A year, month and day of the calendar. -/
def InCalendar (y : Int) (m d : Nat) : Prop :=
  minYear ≤ y ∧ y ≤ maxYear ∧ 1 ≤ m ∧ m ≤ 12 ∧ 1 ≤ d ∧ d ≤ daysInMonth y m

instance (y : Int) (m d : Nat) : Decidable (InCalendar y m d) :=
  inferInstanceAs (Decidable (_ ∧ _))

/-! ### From a day number back to year, month and day -/

/-- The year that holds the day `t`, counted from 1 January of year 0. -/
def yearOfDay (t : Int) : Int :=
  -- 400 years have 146097 days, so the guess is off by one year at most
  let guess := 400 * t / 146097
  if daysBeforeYear (guess + 1) ≤ t then guess + 1
  else if daysBeforeYear guess ≤ t then guess
  else guess - 1

/-- The month among `months` and the day in it, for a day counted from the first of them. -/
def monthAndDay (y : Int) : (months : List Nat) → (dayOfYear : Nat) → Nat × Nat
  | [], d => (12, d + 1)
  | m :: months, d =>
    if d < daysInMonth y m then (m, d + 1) else monthAndDay y months (d - daysInMonth y m)

/-- The year, month and day of a day number. -/
def civil (n : Int) : Int × Nat × Nat :=
  let t := n + epochDay
  let y := yearOfDay t
  let (m, d) := monthAndDay y [1, 2, 3, 4, 5, 6, 7, 8, 9, 10, 11, 12] (t - daysBeforeYear y).toNat
  (y, m, d)

/-! ### Dates of the calendar -/

/-- A date of the calendar. -/
structure Date where
  year : Int
  month : Nat
  day : Nat
  inCalendar : InCalendar year month day
  deriving DecidableEq

namespace Date

/-- The first date of the calendar. -/
def min : Date := ⟨minYear, 1, 1, by decide⟩

/-- The last date of the calendar. -/
def max : Date := ⟨maxYear, 12, 31, by decide⟩

/-- The date of a year, month and day, if the calendar has it. -/
def ofYmd? (y : Int) (m d : Nat) : Option Date :=
  if h : InCalendar y m d then some ⟨y, m, d, h⟩ else none

/-- The days from 1 January 1970 to the date. -/
def dayNumber (d : Date) : Int := UsageBilling.dayNumber d.year d.month d.day

/-- The day before, unless the calendar starts here. -/
def pred? (d : Date) : Option Date :=
  if 1 < d.day then ofYmd? d.year d.month (d.day - 1)
  else if 1 < d.month then ofYmd? d.year (d.month - 1) (daysInMonth d.year (d.month - 1))
  else ofYmd? (d.year - 1) 12 31

end Date

/-! ### Day numbers stay inside the calendar -/

theorem daysInMonth_le (y : Int) (m : Nat) : daysInMonth y m ≤ 31 := by
  unfold daysInMonth; split <;> split <;> omega

theorem daysInMonth_pos (y : Int) (m : Nat) : 28 ≤ daysInMonth y m := by
  unfold daysInMonth; split <;> split <;> omega

/-- The length of a year in days. -/
def daysInYear (y : Int) : Nat := if isLeapYear y then 366 else 365

theorem daysBeforeYear_succ (y : Int) :
    daysBeforeYear (y + 1) = daysBeforeYear y + daysInYear y := by
  simp only [daysBeforeYear, daysInYear, isLeapYear, Bool.and_eq_true, Bool.or_eq_true,
    decide_eq_true_eq]
  split <;> omega

theorem daysBeforeMonth_add_le {y : Int} {m d : Nat} (hm : 1 ≤ m) (hm' : m ≤ 12)
    (hd : d ≤ daysInMonth y m) : daysBeforeMonth y m + d ≤ daysInYear y := by
  have key : ∀ m : Fin 13, 1 ≤ m.val →
      daysBeforeMonth y m.val + daysInMonth y m.val ≤ daysInYear y := by
    unfold daysInYear
    cases h : isLeapYear y <;>
      · intro m
        match m with
        | ⟨0, _⟩ => simp
        | ⟨1, _⟩ | ⟨2, _⟩ | ⟨3, _⟩ | ⟨4, _⟩ | ⟨5, _⟩ | ⟨6, _⟩ | ⟨7, _⟩ | ⟨8, _⟩ | ⟨9, _⟩
        | ⟨10, _⟩ | ⟨11, _⟩ | ⟨12, _⟩ => simp [daysBeforeMonth, daysInMonth, h]
  have := key ⟨m, by omega⟩ hm
  simp only at this
  omega

theorem daysBeforeYear_le {a b : Int} (h : a ≤ b) : daysBeforeYear a ≤ daysBeforeYear b := by
  simp only [daysBeforeYear]; omega

/-- The day numbers of dates lie between those of the two ends of the calendar. -/
theorem Date.dayNumber_mem (d : Date) :
    Date.min.dayNumber ≤ d.dayNumber ∧ d.dayNumber ≤ Date.max.dayNumber := by
  obtain ⟨y, m, d, h1, h2, h3, h4, h5, h6⟩ := d
  have hle := daysBeforeMonth_add_le h3 h4 h6
  have hlo := daysBeforeYear_le h1
  have hhi := daysBeforeYear_le (show y + 1 ≤ maxYear + 1 by omega)
  rw [daysBeforeYear_succ] at hhi
  have hmin : Date.min.dayNumber = daysBeforeYear minYear - epochDay := by decide
  have hmax : Date.max.dayNumber = daysBeforeYear (maxYear + 1) - 1 - epochDay := by decide
  rw [hmin, hmax]
  simp only [Date.dayNumber, UsageBilling.dayNumber]
  omega

end UsageBilling
