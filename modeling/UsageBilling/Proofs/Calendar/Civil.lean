import UsageBilling.Calendar.Hour

/-!
# The calendar and the count of days

`civil` finds the year, month and day of a day number, and `dayNumber` counts the days up to a
year, month and day.  They undo each other, in years before 0 as well as after.

* `yearOfDay_eq_iff` : a day lies in the year that has begun when the next has not.
* `monthAndDay_eq` : the months of a year follow each other without gap.
* `civil_eq_iff` : the one year, month and day with a given day number.
* `civil_mem_month_iff` : the days of a month are as many days in a row, from its first.
* `Timestamp.inCalendar_date` : the date of an instant is in the calendar.
* `HourBucket.place_eq` : the year, month, day and hour of an instant.
-/

namespace UsageBilling

variable {y t n : Int} {m d : Nat}

/-! ### Years -/

/-- The guess of the year, put right, is the year. -/
theorem yearOfDay_mem (t : Int) :
    daysBeforeYear (yearOfDay t) ≤ t ∧ t < daysBeforeYear (yearOfDay t + 1) := by
  -- the guess is a year too large at the most, and a year too small at the most
  have hlow : daysBeforeYear (400 * t / 146097 - 1) ≤ t := by
    unfold daysBeforeYear
    omega
  have hhigh : t < daysBeforeYear (400 * t / 146097 + 1 + 1) := by
    unfold daysBeforeYear
    omega
  simp only [yearOfDay]
  split
  · next hnext => exact ⟨hnext, hhigh⟩
  · next hnext =>
    split
    · next hguess => exact ⟨hguess, by omega⟩
    · next hguess =>
      rw [Int.sub_add_cancel]
      exact ⟨hlow, by omega⟩

/-- A year has begun on a day exactly if the day's year is not before it. -/
theorem le_yearOfDay_iff : y ≤ yearOfDay t ↔ daysBeforeYear y ≤ t := by
  obtain ⟨hlow, hhigh⟩ := yearOfDay_mem t
  constructor
  · intro hle
    exact Int.le_trans (daysBeforeYear_le hle) hlow
  · intro hbegun
    -- a later year begins when the day's own has ended
    by_cases hlater : yearOfDay t + 1 ≤ y
    · have hended : daysBeforeYear (yearOfDay t + 1) ≤ daysBeforeYear y := daysBeforeYear_le hlater
      omega
    · omega

/-- **The year of a day** is the one that has begun when the next has not. -/
theorem yearOfDay_eq_iff :
    yearOfDay t = y ↔ daysBeforeYear y ≤ t ∧ t < daysBeforeYear (y + 1) := by
  rw [← le_yearOfDay_iff, ← Int.not_le, ← le_yearOfDay_iff]
  omega

/-! ### Months of a year -/

/-- A month of the year and a day of the month. -/
def IsCivil (y : Int) (m d : Nat) : Prop := 1 ≤ m ∧ m ≤ 12 ∧ 1 ≤ d ∧ d ≤ daysInMonth y m

/-- The days of some months of a year. -/
def daysInMonths (y : Int) : List Nat → Nat
  | [] => 0
  | m :: months => daysInMonth y m + daysInMonths y months

theorem daysInMonths_concat (months : List Nat) :
    daysInMonths y (months ++ [m]) = daysInMonths y months + daysInMonth y m := by
  induction months with
  | nil => exact Nat.add_comm _ _
  | cons first months ih =>
    rw [List.cons_append, daysInMonths, ih, daysInMonths, Nat.add_assoc]

theorem daysBeforeMonth_succ (hm : 1 ≤ m) :
    daysBeforeMonth y (m + 1) = daysBeforeMonth y m + daysInMonth y m := by
  obtain ⟨k, rfl⟩ : ∃ k, m = k + 1 := ⟨m - 1, by omega⟩
  rfl

theorem daysBeforeMonth_eq (y : Int) (m : Nat) :
    daysBeforeMonth y (m + 1) = daysInMonths y (List.range' 1 m) := by
  induction m with
  | zero => rfl
  | succ m ih =>
    have hlast : List.range' 1 (m + 1) = List.range' 1 m ++ [m + 1] := by
      rw [List.range'_concat, Nat.add_comm 1, Nat.one_mul]
    rw [daysBeforeMonth, ih, hlast, daysInMonths_concat]

/-- The months before one are passed over. -/
theorem monthAndDay_append (before after : List Nat) (h : d < daysInMonth y m) :
    monthAndDay y (before ++ m :: after) (daysInMonths y before + d) = (m, d + 1) := by
  induction before with
  | nil => simp [monthAndDay, daysInMonths, h]
  | cons first before ih =>
    have hpassed : ¬ daysInMonth y first + daysInMonths y before + d < daysInMonth y first := by
      omega
    have hrest : daysInMonth y first + daysInMonths y before + d - daysInMonth y first =
        daysInMonths y before + d := by omega
    rw [List.cons_append, daysInMonths, monthAndDay, if_neg hpassed, hrest, ih]

/-- A day before the end of some months lies in one of them. -/
theorem exists_month (months : List Nat) (h : d < daysInMonths y months) :
    ∃ before m after k, months = before ++ m :: after ∧ k < daysInMonth y m ∧
      d = daysInMonths y before + k := by
  induction months generalizing d with
  | nil => simp [daysInMonths] at h
  | cons first months ih =>
    by_cases hfirst : d < daysInMonth y first
    · exact ⟨[], first, months, d, rfl, hfirst, by simp [daysInMonths]⟩
    · have hrest : d - daysInMonth y first < daysInMonths y months := by
        rw [daysInMonths] at h
        omega
      obtain ⟨before, m, after, k, rfl, hk, hd⟩ := ih hrest
      refine ⟨first :: before, m, after, k, rfl, hk, ?_⟩
      rw [daysInMonths]
      omega

/-- The twelve months make up the year. -/
theorem daysInMonths_year (y : Int) : daysInMonths y (List.range' 1 12) = daysInYear y := by
  cases h : isLeapYear y <;> simp [daysInMonths, daysInMonth, daysInYear, h, List.range']

/-- **The months of a year follow each other.** -/
theorem monthAndDay_eq (h : IsCivil y m d) :
    monthAndDay y (List.range' 1 12) (daysBeforeMonth y m + d - 1) = (m, d) := by
  obtain ⟨hm, hm', hd, hd'⟩ := h
  obtain ⟨k, rfl⟩ : ∃ k, m = k + 1 := ⟨m - 1, by omega⟩
  have hsplit : List.range' 1 12 = List.range' 1 k ++ (k + 1) :: List.range' (k + 2) (11 - k) := by
    have hlast : List.range' (1 + k) (12 - k) = (k + 1) :: List.range' (k + 2) (11 - k) := by
      rw [show 12 - k = 11 - k + 1 by omega, List.range'_succ, Nat.add_comm 1 k]
    rw [← hlast, List.range'_append_1, show k + (12 - k) = 12 by omega]
  have hday : daysBeforeMonth y (k + 1) + d - 1 = daysInMonths y (List.range' 1 k) + (d - 1) := by
    rw [daysBeforeMonth_eq]
    omega
  have hin : d - 1 < daysInMonth y (k + 1) := by omega
  rw [hsplit, hday, monthAndDay_append _ _ hin, show d - 1 + 1 = d by omega]

/-- A day of the year lies in a month. -/
theorem exists_monthAndDay_eq {k : Nat} (h : k < daysInYear y) :
    ∃ m d, IsCivil y m d ∧ monthAndDay y (List.range' 1 12) k = (m, d) ∧
      k + 1 = daysBeforeMonth y m + d := by
  rw [← daysInMonths_year] at h
  obtain ⟨before, m, after, d, hmonths, hd, rfl⟩ := exists_month _ h
  obtain ⟨count, hcount, rfl, hrest⟩ := List.range'_eq_append_iff.1 hmonths
  have hne : 12 - count ≠ 0 := by
    intro hzero
    rw [hzero] at hrest
    cases hrest
  obtain ⟨left, hleft⟩ := Nat.exists_eq_succ_of_ne_zero hne
  rw [hleft, List.range'_succ, List.cons.injEq] at hrest
  obtain rfl : m = count + 1 := by omega
  refine ⟨count + 1, d + 1, ⟨by omega, by omega, by omega, hd⟩, ?_, ?_⟩
  · rw [hmonths]
    exact monthAndDay_append _ _ hd
  · rw [daysBeforeMonth_eq, Nat.add_assoc]

/-! ### Dates -/

theorem civil_def (n : Int) : civil n =
    (yearOfDay (n + epochDay), monthAndDay (yearOfDay (n + epochDay)) (List.range' 1 12)
      (n + epochDay - daysBeforeYear (yearOfDay (n + epochDay))).toNat) := rfl

/-- **The date of a day number** is the one that has this number. -/
theorem civil_eq_iff : civil n = (y, m, d) ↔ IsCivil y m d ∧ dayNumber y m d = n := by
  rw [civil_def]
  constructor
  · intro h
    obtain ⟨rfl, hmonth⟩ := Prod.mk.inj h
    obtain ⟨hlow, hhigh⟩ := yearOfDay_mem (n + epochDay)
    rw [daysBeforeYear_succ] at hhigh
    have hlt : (n + epochDay - daysBeforeYear (yearOfDay (n + epochDay))).toNat <
        daysInYear (yearOfDay (n + epochDay)) := by omega
    obtain ⟨m', d', hcivil, heq, hday⟩ := exists_monthAndDay_eq hlt
    rw [heq] at hmonth
    obtain ⟨rfl, rfl⟩ := Prod.mk.inj hmonth
    refine ⟨hcivil, ?_⟩
    unfold dayNumber
    omega
  · rintro ⟨hcivil, rfl⟩
    have hlength := daysBeforeMonth_add_le hcivil.1 hcivil.2.1 hcivil.2.2.2
    have hday : dayNumber y m d + epochDay = daysBeforeYear y + (daysBeforeMonth y m + d - 1) := by
      unfold dayNumber
      omega
    have hpos := hcivil.2.2.1
    have hyear : yearOfDay (dayNumber y m d + epochDay) = y := by
      rw [yearOfDay_eq_iff, daysBeforeYear_succ]
      omega
    have hrest : (dayNumber y m d + epochDay - daysBeforeYear y).toNat =
        daysBeforeMonth y m + d - 1 := by omega
    rw [hyear, hrest, monthAndDay_eq hcivil]

/-- **The days of a month** are as many days in a row, from its first. -/
theorem civil_mem_month_iff (hm : 1 ≤ m) (hm' : m ≤ 12) :
    ((civil n).1 = y ∧ (civil n).2.1 = m) ↔
      dayNumber y m 1 ≤ n ∧ n < dayNumber y m 1 + daysInMonth y m := by
  constructor
  · obtain ⟨y', m', d', hcivil⟩ : ∃ y' m' d', civil n = (y', m', d') := ⟨_, _, _, rfl⟩
    rw [hcivil]
    intro h
    obtain ⟨rfl, rfl⟩ : y' = y ∧ m' = m := h
    obtain ⟨⟨-, -, hd, hd'⟩, hday⟩ := civil_eq_iff.1 hcivil
    unfold dayNumber at hday ⊢
    omega
  · rintro ⟨hlow, hhigh⟩
    have hcivil : civil n = (y, m, (n - dayNumber y m 1).toNat + 1) := by
      refine civil_eq_iff.2 ⟨⟨hm, hm', by omega, by omega⟩, ?_⟩
      unfold dayNumber at hlow ⊢
      omega
    rw [hcivil]
    exact ⟨rfl, rfl⟩

/-- **The date of an instant is in the calendar.** -/
theorem Timestamp.inCalendar_date {t : Timestamp} (h : t.date = (y, m, d)) : InCalendar y m d := by
  obtain ⟨⟨hm, hm', hd, hd'⟩, -⟩ := civil_eq_iff.1 h
  have hyear : yearOfDay (t.dayNumber + epochDay) = y := congrArg Prod.fst h
  have hstart : 86400 * (daysBeforeYear minYear - epochDay) = minSeconds := by decide
  have hend : 86400 * (daysBeforeYear (maxYear + 1) - epochDay) = maxSeconds + 1 := by decide
  obtain ⟨hlow, hhigh, -⟩ := t.isInstant
  have hafter : minYear ≤ y := by
    rw [← hyear, le_yearOfDay_iff]
    unfold Timestamp.dayNumber
    omega
  have hbefore : ¬ maxYear + 1 ≤ y := by
    rw [← hyear, le_yearOfDay_iff]
    unfold Timestamp.dayNumber
    omega
  exact ⟨hafter, Int.lt_add_one_iff.1 (Int.not_le.1 hbefore), hm, hm', hd, hd'⟩

/-! ### Hours -/

/-- The year, month and day of an hour, and the hour of the day. -/
def HourBucket.place (b : HourBucket) : Int × Nat × Nat × Nat := (b.year, b.month, b.day, b.hour)

theorem HourBucket.place_eq {t : Timestamp} {h : Nat} (hcivil : IsCivil y m d) (hh : h < 24)
    (ht : t.seconds = 86400 * dayNumber y m d + 3600 * h) :
    (HourBucket.ofTimestamp t).place = (y, m, d, h) := by
  have hday : t.dayNumber = dayNumber y m d := by
    unfold Timestamp.dayNumber
    omega
  have hhour : t.hour = h := by
    unfold Timestamp.hour Timestamp.secondOfDay
    omega
  have hdate : t.date = (y, m, d) := by
    rw [Timestamp.date, hday]
    exact civil_eq_iff.2 ⟨hcivil, rfl⟩
  simp [HourBucket.place, HourBucket.ofTimestamp, hdate, hhour]

end UsageBilling
