import UsageBilling.Proofs.Calendar.Civil
import UsageBilling.Proofs.Calendar.Hours
import UsageBilling.Report.Ingest
import UsageBilling.Session.Lemmas
import UsageBilling.Session.Script

/-!
# An hour and its place in the calendar

The record of an hour is found again by its year, month, day and hour of the day, so these have to
tell the hours apart.  They do, and in the order of time: the calendar is read like a number, the
year first.

* `dayNumber_lt_iff` : dates come in the order of their day numbers.
* `Timestamp.lt_iff_earlier` : hours come in the order of their places.
* `HourBucket.place_identifies_hour` : one hour for each place of the calendar, and only hours are let
  in.
-/

namespace UsageBilling

variable {y y' : Int} {m m' d d' : Nat} {t u : Timestamp}

/-! ### Dates in order -/

/-- A month has ended when a later one begins. -/
theorem daysBeforeMonth_add_daysInMonth_le (hm : 1 ≤ m) (h : m < m') :
    daysBeforeMonth y m + daysInMonth y m ≤ daysBeforeMonth y m' := by
  induction m' with
  | zero => cases h
  | succ k ih =>
    have hstep : daysBeforeMonth y (k + 1) = daysBeforeMonth y k + daysInMonth y k :=
      daysBeforeMonth_succ (by omega)
    by_cases hk : m = k
    · subst hk
      exact Nat.le_of_eq hstep.symm
    · have hended := ih (by omega)
      omega

/-- An earlier date: compared by year, then by month, then by day. -/
def EarlierDate (y : Int) (m d : Nat) (y' : Int) (m' d' : Nat) : Prop :=
  y < y' ∨ (y = y' ∧ (m < m' ∨ (m = m' ∧ d < d')))

theorem dayNumber_lt (h : IsCivil y m d) (h' : IsCivil y' m' d')
    (hearlier : EarlierDate y m d y' m' d') : dayNumber y m d < dayNumber y' m' d' := by
  obtain ⟨hm, hm', hd, hd'⟩ := h
  obtain ⟨-, -, hpos, -⟩ := h'
  unfold dayNumber
  rcases hearlier with hyear | ⟨rfl, hmonth | ⟨rfl, hday⟩⟩
  · have hended : daysBeforeYear (y + 1) ≤ daysBeforeYear y' := daysBeforeYear_le hyear
    have hwithin : daysBeforeMonth y m + d ≤ daysInYear y := daysBeforeMonth_add_le hm hm' hd'
    rw [daysBeforeYear_succ] at hended
    omega
  · have hended : daysBeforeMonth y m + daysInMonth y m ≤ daysBeforeMonth y m' :=
      daysBeforeMonth_add_daysInMonth_le hm hmonth
    omega
  · omega

/-- **Dates come in the order of their day numbers.** -/
theorem dayNumber_lt_iff (h : IsCivil y m d) (h' : IsCivil y' m' d') :
    dayNumber y m d < dayNumber y' m' d' ↔ EarlierDate y m d y' m' d' := by
  refine ⟨fun hlt => ?_, dayNumber_lt h h'⟩
  have hcases : EarlierDate y m d y' m' d' ∨ EarlierDate y' m' d' y m d ∨
      (y = y' ∧ m = m' ∧ d = d') := by
    unfold EarlierDate
    omega
  rcases hcases with hearlier | hlater | ⟨rfl, rfl, rfl⟩
  · exact hearlier
  · exact absurd hlt (Int.not_lt.2 (Int.le_of_lt (dayNumber_lt h' h hlater)))
  · exact absurd hlt (Int.lt_irrefl _)

namespace Timestamp

theorem hour_lt (t : Timestamp) : t.hour < 24 := by
  unfold hour secondOfDay
  omega

/-- The start of an hour is given by its day and the hour of the day. -/
theorem seconds_of_isHourStart (h : t.isHourStart) :
    t.seconds = 86400 * t.dayNumber + 3600 * t.hour := by
  have haligned := (isHourStart_iff.1 h).1
  unfold dayNumber hour secondOfDay
  omega

theorem lt_iff_of_isHourStart (ht : t.isHourStart) (hu : u.isHourStart) :
    t < u ↔ t.dayNumber < u.dayNumber ∨ (t.dayNumber = u.dayNumber ∧ t.hour < u.hour) := by
  have hnanos := (isHourStart_iff.1 ht).2
  have hnanos' := (isHourStart_iff.1 hu).2
  have hseconds := seconds_of_isHourStart ht
  have hseconds' := seconds_of_isHourStart hu
  have hhour := t.hour_lt
  have hhour' := u.hour_lt
  rw [lt_iff]
  omega

end Timestamp

/-! ### Hours in order -/

namespace HourBucket

/-- Earlier in the calendar: compared by year, then by month, by day and by hour. -/
def Earlier (a b : HourBucket) : Prop :=
  a.year < b.year ∨ (a.year = b.year ∧ (a.month < b.month ∨ (a.month = b.month ∧
    (a.day < b.day ∨ (a.day = b.day ∧ a.hour < b.hour)))))

/-- The place is a date of the calendar and an hour of the day. -/
def InCalendar (b : HourBucket) : Prop :=
  UsageBilling.InCalendar b.year b.month b.day ∧ b.hour < 24

theorem ofTimestamp_eq (h : t.date = (y, m, d)) : ofTimestamp t = ⟨t, y, m, d, t.hour⟩ := by
  rw [ofTimestamp, h]

theorem inCalendar_ofTimestamp (t : Timestamp) : (ofTimestamp t).InCalendar := by
  obtain ⟨y, m, d, hdate⟩ : ∃ y m d, t.date = (y, m, d) := ⟨_, _, _, rfl⟩
  rw [ofTimestamp_eq hdate]
  exact ⟨Timestamp.inCalendar_date hdate, t.hour_lt⟩

end HourBucket

open HourBucket

namespace Timestamp

/-- **Hours come in the order of their places.** -/
theorem lt_iff_earlier (ht : t.isHourStart) (hu : u.isHourStart) :
    t < u ↔ (ofTimestamp t).Earlier (ofTimestamp u) := by
  obtain ⟨y, m, d, hdate⟩ : ∃ y m d, t.date = (y, m, d) := ⟨_, _, _, rfl⟩
  obtain ⟨y', m', d', hdate'⟩ : ∃ y m d, u.date = (y, m, d) := ⟨_, _, _, rfl⟩
  obtain ⟨hcivil, hday⟩ := civil_eq_iff.1 hdate
  obtain ⟨hcivil', hday'⟩ := civil_eq_iff.1 hdate'
  have hearlier : t.dayNumber < u.dayNumber ↔ EarlierDate y m d y' m' d' := by
    rw [← hday, ← hday', dayNumber_lt_iff hcivil hcivil']
  have hlater : u.dayNumber < t.dayNumber ↔ EarlierDate y' m' d' y m d := by
    rw [← hday, ← hday', dayNumber_lt_iff hcivil' hcivil]
  rw [lt_iff_of_isHourStart ht hu, ofTimestamp_eq hdate, ofTimestamp_eq hdate']
  unfold EarlierDate at hearlier hlater
  simp only [Earlier]
  omega

/-- No two hours share a place. -/
theorem eq_of_place_eq (ht : t.isHourStart) (hu : u.isHourStart)
    (h : (ofTimestamp t).place = (ofTimestamp u).place) : t = u := by
  have hirrefl : ∀ {a b : HourBucket}, a.place = b.place → ¬ a.Earlier b := by
    intro a b hplace hearlier
    simp only [place, Prod.mk.injEq] at hplace
    unfold Earlier at hearlier
    omega
  apply eq_of_not_lt
  · rw [lt_iff_earlier ht hu]
    exact hirrefl h
  · rw [lt_iff_earlier hu ht]
    exact hirrefl h.symm

/-- **Every place of the calendar has its hour.** -/
theorem exists_of_place {h : Nat} (hdate : UsageBilling.InCalendar y m d) (hh : h < 24) :
    ∃ t : Timestamp, t.isHourStart ∧ (ofTimestamp t).place = (y, m, d, h) := by
  -- the hour starts as many seconds after midnight
  have hmidnight := (midnight ⟨y, m, d, hdate⟩).isInstant
  have hlast := (Date.dayNumber_mem ⟨y, m, d, hdate⟩).2
  have hmax : 86400 * Date.max.dayNumber + 86399 = maxSeconds := by decide
  simp only [midnight, Date.dayNumber] at hmidnight hlast
  have hinstant : IsInstant (86400 * UsageBilling.dayNumber y m d + 3600 * h) 0 := by
    obtain ⟨hlow, -, -⟩ := hmidnight
    rw [Date.dayNumber] at hmax
    exact ⟨by omega, by omega, by decide⟩
  refine ⟨⟨_, 0, hinstant⟩, isHourStart_iff.2 ⟨?_, rfl⟩, place_eq hdate.2.2 hh rfl⟩
  show (86400 * UsageBilling.dayNumber y m d + 3600 * (h : Int)) % 3600 = 0
  omega

end Timestamp

/-! ### The start of an hour is required -/

/-- **What is let in** has seconds divisible by 3600 and no fraction. -/
theorem Report.runIn_requireHourStart {σ : Type} (env : Environment σ) (w : World σ)
    (t : Timestamp) : Session.runIn env w (requireHourStart t) =
      (if t.seconds % 3600 = 0 ∧ t.nanos = 0 then .ok ()
        else .error (.failed (.validation (.unalignedTimestamp t))), w) := by
  unfold requireHourStart
  simp only [Timestamp.isHourStart_iff]
  split
  · exact Session.runIn_pure env w ()
  · exact Session.runIn_fail env w _

namespace HourBucket

/-- **An hour is identified by its place.**  Hours come in the order of their years, months, days and
hours of the day, so that no two share them all; every instant has a date of the calendar and an hour
of the day, and every such date and hour is that of an hour.  Where the start of an hour is required,
the instants are let in whose seconds are divisible by 3600 and that have no fraction, which leaves
out every leap second. -/
theorem place_identifies_hour :
    (∀ t u : Timestamp, t.isHourStart → u.isHourStart →
      (t < u ↔ (ofTimestamp t).Earlier (ofTimestamp u)) ∧
        ((ofTimestamp t).place = (ofTimestamp u).place → t = u)) ∧
      (∀ t : Timestamp, (ofTimestamp t).InCalendar) ∧
      (∀ (y : Int) (m d h : Nat), UsageBilling.InCalendar y m d → h < 24 →
        ∃ t : Timestamp, t.isHourStart ∧ (ofTimestamp t).place = (y, m, d, h)) ∧
      ∀ {σ : Type} (env : Environment σ) (w : World σ) (t : Timestamp),
        Session.runIn env w (Report.requireHourStart t) =
          (if t.seconds % 3600 = 0 ∧ t.nanos = 0 then .ok ()
            else .error (.failed (.validation (.unalignedTimestamp t))), w) ∧
        (nanosPerSecond ≤ t.nanos → Session.runIn env w (Report.requireHourStart t) =
          (.error (.failed (.validation (.unalignedTimestamp t))), w)) := by
  refine ⟨fun t u ht hu => ⟨Timestamp.lt_iff_earlier ht hu, Timestamp.eq_of_place_eq ht hu⟩,
    inCalendar_ofTimestamp, fun y m d h hdate hh => Timestamp.exists_of_place hdate hh,
    fun env w t => ⟨Report.runIn_requireHourStart env w t, fun hleap => ?_⟩⟩
  have hfraction : ¬ (t.seconds % 3600 = 0 ∧ t.nanos = 0) := by
    unfold nanosPerSecond at hleap
    omega
  rw [Report.runIn_requireHourStart, if_neg hfraction]

/-- The last hour of the leap day of year 0, long before 1970. -/
def leapDayEnd : Timestamp := ⟨-62162038800, 0, by decide⟩

/-- The first hour of the March that follows. -/
def marchStart : Timestamp := ⟨-62162035200, 0, by decide⟩

/-- The leap second at the end of 2016. -/
def leapSecond : Timestamp := ⟨1483228799, 1000000000, by decide⟩

/-- A database that is not asked anything. -/
def silence : World Script := ⟨⟨true, [], [], [], []⟩, [], .zero⟩

theorem place_identifies_hour_leapDay :
    (leapDayEnd.isHourStart ∧ marchStart.isHourStart ∧ leapDayEnd < marchStart) ∧
      (ofTimestamp leapDayEnd).Earlier (ofTimestamp marchStart) ∧
      (UsageBilling.InCalendar 0 2 29 ∧
        ∃ t : Timestamp, t.isHourStart ∧ (ofTimestamp t).place = (0, 2, 29, 23)) ∧
      (nanosPerSecond ≤ leapSecond.nanos ∧
        Session.runIn Script.environment silence (Report.requireHourStart leapSecond) =
          (.error (.failed (.validation (.unalignedTimestamp leapSecond))), silence)) := by
  obtain ⟨horder, -, hreached, hrequired⟩ := place_identifies_hour
  refine ⟨⟨by decide, by decide, by decide⟩, ?_, ⟨by decide, hreached 0 2 29 23 (by decide) (by decide)⟩,
    by decide, (hrequired Script.environment silence leapSecond).2 (by decide)⟩
  exact (horder leapDayEnd marchStart (by decide) (by decide)).1.1 (by decide)

end HourBucket

end UsageBilling
