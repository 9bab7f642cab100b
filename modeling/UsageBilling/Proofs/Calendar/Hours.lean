import UsageBilling.Calendar.Hour

/-!
# The hours of a range

`Timestamp.addHours? t i` is `i` hours later than `t`, and `hourCount start stop` is how many of the
instants `start, start + 1 h, …` lie before `stop`.

* `lt_hourCount_iff` : the order by seconds and nanoseconds decides what is counted.
* `hourSpan_of_isSome` : unless the calendar ends first, `hourSpan` lists these instants in order.
* `pastCalendar_of_addHours?_eq_none` : the calendar ends first if it lacks the second hour behind.
* `hourSpan_append` : the hours of a range are those of its two parts.
-/

namespace UsageBilling

variable {start mid stop t u : Timestamp} {times : List Timestamp} {i n : Nat}

/-! ### Some hours later -/

namespace Timestamp

/-- Some hours later, at the same fraction of a second. -/
def addHours? (t : Timestamp) (i : Nat) : Option Timestamp :=
  if h : IsInstant (t.seconds + 3600 * i) t.nanos then some ⟨_, _, h⟩ else none

theorem addHours?_eq_some :
    t.addHours? i = some u ↔ u.seconds = t.seconds + 3600 * i ∧ u.nanos = t.nanos := by
  unfold addHours?
  constructor
  · intro h
    split at h
    · obtain rfl := Option.some.inj h
      exact ⟨rfl, rfl⟩
    · cases h
  · rintro ⟨hseconds, hnanos⟩
    obtain ⟨seconds, nanos, hinstant⟩ := u
    simp only at hseconds hnanos
    subst hseconds hnanos
    rw [dif_pos hinstant]

theorem addHours?_zero (t : Timestamp) : t.addHours? 0 = some t :=
  addHours?_eq_some.2 ⟨by simp, rfl⟩

theorem nanos_of_addHour? (h : t.nanos < nanosPerSecond) (hu : t.addHour? = some u) :
    u.nanos = t.nanos := by
  rw [addHour?, if_pos h] at hu
  exact (ofUnix?_eq_some.1 hu).1.2

theorem addHours?_one (h : t.nanos < nanosPerSecond) : t.addHours? 1 = t.addHour? := by
  refine Option.ext fun u => ?_
  rw [addHours?_eq_some, addHour?, if_pos h, ofUnix?_eq_some,
    and_iff_left (show OnClock _ _ from .inl h), Int.natCast_one, Int.mul_one]

theorem addHours?_succ (h : t.nanos < nanosPerSecond) (hu : t.addHour? = some u) :
    t.addHours? (i + 1) = u.addHours? i := by
  have hsum : t.seconds + 3600 * ((i + 1 : Nat) : Int) = u.seconds + 3600 * i := by
    rw [seconds_of_addHour? hu]
    push_cast
    omega
  rw [addHours?, addHours?, hsum, nanos_of_addHour? h hu]

/-- Only the end of the calendar is in the way. -/
theorem isSome_addHours?_iff :
    (t.addHours? i).isSome ↔ t.seconds + 3600 * i ≤ maxSeconds := by
  have hmin := t.isInstant.1
  have hnanos := t.isInstant.2.2
  rw [addHours?]
  constructor
  · intro hsome
    split at hsome
    · next hinstant => exact hinstant.2.1
    · cases hsome
  · intro hmax
    rw [dif_pos ⟨by omega, hmax, hnanos⟩]
    rfl

theorem isSome_addHours?_of_le {j : Nat} (hij : i ≤ j) (hj : (t.addHours? j).isSome) :
    (t.addHours? i).isSome := by
  rw [isSome_addHours?_iff] at hj ⊢
  omega

theorem isHourStart_iff : t.isHourStart ↔ t.seconds % 3600 = 0 ∧ t.nanos = 0 := by
  simp only [isHourStart, Bool.and_eq_true, decide_eq_true_eq]
  unfold minute second secondOfDay
  omega

theorem eq_of_not_lt (h : ¬ t < u) (h' : ¬ u < t) : t = u := by
  obtain ⟨seconds, nanos, _⟩ := t
  obtain ⟨seconds', nanos', _⟩ := u
  simp only [lt_iff] at h h'
  obtain rfl : seconds = seconds' := by omega
  obtain rfl : nanos = nanos' := by omega
  rfl

theorem not_lt_of_lt (h : t < u) : ¬ u < t := by
  rw [lt_iff] at h ⊢
  omega

theorem seconds_le_of_not_lt (h : ¬ u < t) : t.seconds ≤ u.seconds := by
  rw [lt_iff] at h
  omega

theorem not_lt_trans (h : ¬ mid < start) (h' : ¬ stop < mid) : ¬ stop < start := by
  rw [lt_iff] at h h' ⊢
  omega

theorem nanos_lt_of_isHourStart (h : t.isHourStart) : t.nanos < nanosPerSecond := by
  rw [(isHourStart_iff.1 h).2]
  decide

theorem isHourStart_of_addHour? (h : t.isHourStart) (hu : t.addHour? = some u) :
    u.isHourStart := by
  obtain ⟨hseconds, hnanos⟩ := isHourStart_iff.1 h
  have hlater := seconds_of_addHour? hu
  have hsame := nanos_of_addHour? (nanos_lt_of_isHourStart h) hu
  exact isHourStart_iff.2 ⟨by omega, by omega⟩

/-- Between two starts of an hour there is at least an hour. -/
theorem not_lt_of_addHour? (ht : t.isHourStart) (hstop : stop.isHourStart) (hlt : t < stop)
    (hu : t.addHour? = some u) : ¬ stop < u := by
  obtain ⟨hseconds, hnanos⟩ := isHourStart_iff.1 ht
  obtain ⟨hseconds', hnanos'⟩ := isHourStart_iff.1 hstop
  have hlater := seconds_of_addHour? hu
  have hsame := nanos_of_addHour? (nanos_lt_of_isHourStart ht) hu
  rw [lt_iff] at hlt ⊢
  omega

theorem seconds_le_of_addHour? (h : t.addHour?.isSome) : t.seconds + 3600 ≤ maxSeconds := by
  obtain ⟨u, hu⟩ := Option.isSome_iff_exists.1 h
  have hmax := u.isInstant.2.1
  rwa [seconds_of_addHour? hu] at hmax

/-- Two hours before the end of the calendar or earlier. -/
theorem seconds_le_of_twoHours (h : (t.addHour?.bind addHour?).isSome) :
    t.seconds + 7200 ≤ maxSeconds := by
  obtain ⟨v, hv⟩ := Option.isSome_iff_exists.1 h
  obtain ⟨u, hu, hv⟩ := Option.bind_eq_some_iff.1 hv
  have hlater := seconds_of_addHour? hu
  have hmax := seconds_le_of_addHour? (Option.isSome_of_eq_some hv)
  omega

end Timestamp

/-! ### Counting -/

open Timestamp

/-- How many of the instants `start, start + 1 h, …` lie before `stop`. -/
def hourCount (start stop : Timestamp) : Nat :=
  ((stop.seconds - start.seconds - if start.nanos < stop.nanos then 0 else 1) / 3600 + 1).toNat

theorem lt_hourCount_iff :
    i < hourCount start stop ↔ start.seconds + 3600 * i < stop.seconds ∨
      (start.seconds + 3600 * i = stop.seconds ∧ start.nanos < stop.nanos) := by
  unfold hourCount
  split <;> omega

/-- What is counted lies before the end. -/
theorem lt_iff_lt_hourCount (h : start.addHours? i = some t) :
    t < stop ↔ i < hourCount start stop := by
  obtain ⟨hseconds, hnanos⟩ := addHours?_eq_some.1 h
  rw [lt_hourCount_iff, Timestamp.lt_iff, hseconds, hnanos]

theorem hourCount_eq_zero_iff : hourCount start stop = 0 ↔ ¬ start < stop := by
  rw [lt_iff_lt_hourCount start.addHours?_zero]
  omega

theorem hourCount_of_addHour? (h : start.nanos < nanosPerSecond) (hu : start.addHour? = some u)
    (hlt : start < stop) : hourCount start stop = hourCount u stop + 1 := by
  have hstart := seconds_of_addHour? hu
  have hnanos := nanos_of_addHour? h hu
  have hpos : 0 < hourCount start stop := (lt_iff_lt_hourCount start.addHours?_zero).1 hlt
  unfold hourCount at hpos ⊢
  rw [hstart, hnanos]
  omega

/-! ### Listing -/

/-- One step of the list. -/
theorem hourSpan_of_addHour? (hu : start.addHour? = some u) :
    hourSpan start stop =
      if start < stop then ⟨start :: (hourSpan u stop).hours, (hourSpan u stop).pastCalendar⟩
      else ⟨[], false⟩ := by
  rw [hourSpan]
  split
  · next hnone => rw [hnone] at hu; cases hu
  · next v hv =>
    obtain rfl : u = v := Option.some.inj (hu.symm.trans hv)
    split <;> rfl

theorem hourSpan_of_none (h : start.addHour? = none) : hourSpan start stop = ⟨[], true⟩ := by
  rw [hourSpan]
  split
  · rfl
  · next u hu => rw [h] at hu; cases hu

theorem hours_of_hourSpan (h : hourSpan start stop = ⟨times, false⟩) :
    hours start stop = some times := by
  rw [hours, h]
  rfl

theorem of_hourSpan_nil (h : hourSpan start stop = ⟨[], false⟩) :
    ∃ u, start.addHour? = some u ∧ ¬ start < stop := by
  cases hu : start.addHour? with
  | none =>
    rw [hourSpan_of_none hu] at h
    cases h
  | some u =>
    refine ⟨u, rfl, fun hlt => ?_⟩
    rw [hourSpan_of_addHour? hu, if_pos hlt] at h
    cases h

theorem of_hourSpan_cons (h : hourSpan start stop = ⟨t :: times, false⟩) :
    start = t ∧ start < stop ∧
      ∃ u, start.addHour? = some u ∧ hourSpan u stop = ⟨times, false⟩ := by
  cases hu : start.addHour? with
  | none =>
    rw [hourSpan_of_none hu] at h
    cases h
  | some u =>
    rw [hourSpan_of_addHour? hu] at h
    by_cases hlt : start < stop
    · rw [if_pos hlt, HourSpan.mk.injEq, List.cons.injEq] at h
      obtain ⟨⟨hstart, hhours⟩, hpast⟩ := h
      exact ⟨hstart, hlt, u, rfl, by rw [← hhours, ← hpast]⟩
    · rw [if_neg hlt] at h
      cases h

/-- **The hours of a range**, as long as the calendar lasts one hour longer than the first that is
not in it. -/
theorem hourSpan_of_isSome (h : start.nanos < nanosPerSecond)
    (hsome : (start.addHours? (hourCount start stop + 1)).isSome) :
    ∃ times, hourSpan start stop = ⟨times, false⟩ ∧ times.length = hourCount start stop ∧
      ∀ i < times.length, times[i]? = start.addHours? i := by
  -- on the count, which is one less from the next hour on
  induction hn : hourCount start stop generalizing start with
  | zero =>
    have hnext := isSome_addHours?_of_le (Nat.le_add_left 1 _) hsome
    rw [addHours?_one h] at hnext
    obtain ⟨u, hu⟩ := Option.isSome_iff_exists.1 hnext
    refine ⟨[], ?_, rfl, by simp⟩
    rw [hourSpan_of_addHour? hu, if_neg (hourCount_eq_zero_iff.1 hn)]
  | succ n ih =>
    have hlt : start < stop := by
      rw [lt_iff_lt_hourCount start.addHours?_zero]
      omega
    have hnext := isSome_addHours?_of_le (Nat.le_add_left 1 _) hsome
    rw [addHours?_one h] at hnext
    obtain ⟨u, hu⟩ := Option.isSome_iff_exists.1 hnext
    have hcount := hourCount_of_addHour? h hu hlt
    have hrest : hourCount u stop = n := by omega
    rw [hcount, addHours?_succ h hu] at hsome
    have hnanos := nanos_of_addHour? h hu
    obtain ⟨times, hspan, hlength, htimes⟩ := ih (by omega) hsome hrest
    refine ⟨start :: times, ?_, by rw [List.length_cons, hlength], ?_⟩
    · rw [hourSpan_of_addHour? hu, if_pos hlt, hspan]
    · intro i hi
      cases i with
      | zero => exact (start.addHours?_zero).symm
      | succ i =>
        rw [List.getElem?_cons_succ, addHours?_succ h hu]
        exact htimes i (by simpa using hi)

/-- Unless the calendar lasts one hour longer than the first that is not in the range, it ends
while the range is listed. -/
theorem pastCalendar_of_addHours?_eq_none (h : start.nanos < nanosPerSecond)
    (hnone : start.addHours? (hourCount start stop + 1) = none) :
    (hourSpan start stop).pastCalendar = true := by
  -- on the count, which is one less from the next hour on
  induction hn : hourCount start stop generalizing start with
  | zero =>
    rw [hn, Nat.zero_add, addHours?_one h] at hnone
    rw [hourSpan_of_none hnone]
  | succ n ih =>
    cases hu : start.addHour? with
    | none => rw [hourSpan_of_none hu]
    | some u =>
      have hlt : start < stop := by
        rw [lt_iff_lt_hourCount start.addHours?_zero]
        omega
      have hcount := hourCount_of_addHour? h hu hlt
      rw [hcount, addHours?_succ h hu] at hnone
      have hnanos := nanos_of_addHour? h hu
      rw [hourSpan_of_addHour? hu, if_pos hlt]
      exact ih (by omega) hnone (by omega)

/-- Hours that are listed by their distance from the start come in order. -/
theorem pairwise_lt_of_addHours? (h : ∀ i < times.length, times[i]? = start.addHours? i) :
    times.Pairwise (· < ·) := by
  refine List.pairwise_iff_getElem.2 fun i j hi hj hij => ?_
  have hti := h i hi
  have htj := h j hj
  rw [List.getElem?_eq_getElem hi] at hti
  rw [List.getElem?_eq_getElem hj] at htj
  have hseconds := (addHours?_eq_some.1 hti.symm).1
  have hseconds' := (addHours?_eq_some.1 htj.symm).1
  rw [lt_iff]
  omega

/-! ### Splitting -/

/-- **The hours of a range are those of its two parts**, if the second starts with an hour. -/
theorem hourSpan_append {later : List Timestamp} (hstart : start.isHourStart)
    (hmid : mid.isHourStart) (hfirst : ¬ mid < start) (hsecond : ¬ stop < mid)
    (h : hourSpan start mid = ⟨times, false⟩) (h' : hourSpan mid stop = ⟨later, false⟩) :
    hourSpan start stop = ⟨times ++ later, false⟩ := by
  induction times generalizing start with
  | nil =>
    obtain ⟨-, -, hlt⟩ := of_hourSpan_nil h
    rw [eq_of_not_lt hlt hfirst, h']
    rfl
  | cons time times ih =>
    obtain ⟨rfl, hlt, u, hu, hrest⟩ := of_hourSpan_cons h
    have hmore := ih (isHourStart_of_addHour? hstart hu) (not_lt_of_addHour? hstart hmid hlt hu)
      hrest
    have hbefore : start < stop := by
      simp only [lt_iff] at hlt hsecond ⊢
      omega
    rw [hourSpan_of_addHour? hu, if_pos hbefore, hmore]
    rfl

/-- From an hour of a range on, the hours are those from its place in the list on. -/
theorem hourSpan_of_append {before after : List Timestamp} (hstart : start.isHourStart)
    (h : hourSpan start stop = ⟨before ++ t :: after, false⟩) :
    t.isHourStart ∧ t < stop ∧ hourSpan t stop = ⟨t :: after, false⟩ := by
  induction before generalizing start with
  | nil =>
    obtain ⟨rfl, hlt, -⟩ := of_hourSpan_cons h
    exact ⟨hstart, hlt, h⟩
  | cons time before ih =>
    obtain ⟨-, -, u, hu, hrest⟩ := of_hourSpan_cons h
    exact ih (isHourStart_of_addHour? hstart hu) hrest

/-- A range has all its hours, and they follow one another, unless it comes within two hours of
the end of the calendar. -/
theorem exists_hourSpan (hstart : start.isHourStart) (horder : ¬ stop < start)
    (hroom : stop.seconds + 7200 ≤ maxSeconds) :
    ∃ times, hourSpan start stop = ⟨times, false⟩ ∧ times.Pairwise (· < ·) := by
  have hnanos := nanos_lt_of_isHourStart hstart
  have hcount : start.seconds + 3600 * (hourCount start stop + 1 : Nat) ≤ maxSeconds := by
    -- the last hour that is counted lies before the end
    have hlast : 0 < hourCount start stop →
        start.seconds + 3600 * (hourCount start stop - 1 : Nat) ≤ stop.seconds := by
      intro hpos
      have hlt := lt_hourCount_iff.1 (Nat.sub_lt hpos Nat.one_pos)
      omega
    rw [lt_iff] at horder
    omega
  obtain ⟨times, hspan, -, htimes⟩ :=
    hourSpan_of_isSome hnanos (isSome_addHours?_iff.2 hcount)
  exact ⟨times, hspan, pairwise_lt_of_addHours? htimes⟩

end UsageBilling
