import Mathlib.Algebra.Order.Floor.Div
import UsageBilling.Proofs.Calendar.Hours

/-!
# Listing the hours of a range

The hours of a half-open range are listed one after the other, from a start that need not be that of
an hour.  How many there are is counted in the order by seconds and nanoseconds; without leap seconds
it is the span of the range in hours, rounded up.

* `hourCount_eq_ceilDiv` : the span, rounded up.
* `hours_eq_none_iff` : the list has no end in the calendar if this lacks the second hour behind the
  range.
* `hours_enumerate` : which hours are listed, and when there are any.
-/

namespace UsageBilling

open Timestamp

variable {start stop : Timestamp} {times : List Timestamp}

/-- Nanoseconds in an hour. -/
def nanosPerHour : Nat := 3600 * nanosPerSecond

/-- The nanoseconds from one instant to another, negative if that is earlier. -/
def Timestamp.nanosUntil (start stop : Timestamp) : Int :=
  (stop.seconds - start.seconds) * nanosPerSecond + (stop.nanos - start.nanos)

/-- Some hours after the start it is still before the end, by seconds and then by nanoseconds. -/
def BeforeStop (start stop : Timestamp) (i : Nat) : Prop :=
  start.seconds + 3600 * i < stop.seconds ∨
    (start.seconds + 3600 * i = stop.seconds ∧ start.nanos < stop.nanos)

/-! ### How many hours there are -/

/-- **The number of hours is the span, rounded up.** -/
theorem hourCount_eq_ceilDiv (hstart : start.nanos < nanosPerSecond)
    (hstop : stop.nanos < nanosPerSecond) :
    hourCount start stop = (start.nanosUntil stop).toNat ⌈/⌉ nanosPerHour := by
  refine eq_of_forall_lt_iff fun i => ?_
  -- an hour is counted just if the hours up to it are shorter than the span
  have hspan : i < (start.nanosUntil stop).toNat ⌈/⌉ nanosPerHour ↔
      nanosPerHour * i < (start.nanosUntil stop).toNat := by
    rw [← Nat.not_le, ceilDiv_le_iff_le_mul (by decide), Nat.not_le]
  rw [hspan, lt_hourCount_iff]
  unfold nanosUntil nanosPerHour
  unfold nanosPerSecond at *
  omega

/-! ### The list -/

/-- **The list has no end in the calendar** just if that lacks the second hour behind the range. -/
theorem hours_eq_none_iff (h : start.nanos < nanosPerSecond) :
    hours start stop = none ↔ maxSeconds < start.seconds + 3600 * (hourCount start stop + 1) := by
  have hbeyond := isSome_addHours?_iff (t := start) (i := hourCount start stop + 1)
  push_cast at hbeyond
  rw [← Int.not_le, ← hbeyond, hours]
  constructor
  · intro hnone hsome
    obtain ⟨times, hspan, -⟩ := hourSpan_of_isSome h hsome
    rw [hspan] at hnone
    cases hnone
  · intro hnot
    have hpast := pastCalendar_of_addHours?_eq_none h (Option.not_isSome_iff_eq_none.1 hnot)
    rw [hpast]
    rfl

theorem of_hours_eq_some (h : start.nanos < nanosPerSecond) (htimes : hours start stop = some times) :
    times.length = hourCount start stop ∧ ∀ i < times.length, times[i]? = start.addHours? i := by
  have hsome : (start.addHours? (hourCount start stop + 1)).isSome := by
    by_contra hnot
    have hpast := pastCalendar_of_addHours?_eq_none h (Option.not_isSome_iff_eq_none.1 hnot)
    rw [hours, hpast] at htimes
    cases htimes
  obtain ⟨listed, hspan, hlength, hlisted⟩ := hourSpan_of_isSome h hsome
  obtain rfl := Option.some.inj ((hours_of_hourSpan hspan).symm.trans htimes)
  exact ⟨hlength, hlisted⟩

/-- **The hours of a range are listed one after the other.**  Let `n` be the number of hours `i` such
that `i` hours after the start it is before the end: none if the end is not after the start, and
otherwise the span in hours, rounded up, unless the end is in a leap second.  Exactly these hours
are listed, each once and in order, unless `n + 1` hours after the start the calendar is over; then
there is no list. -/
theorem hours_enumerate (h : start.nanos < nanosPerSecond) :
    ∃ n : Nat, (∀ i, i < n ↔ BeforeStop start stop i) ∧ (¬ start < stop → n = 0) ∧
      (stop.nanos < nanosPerSecond → n = (start.nanosUntil stop).toNat ⌈/⌉ nanosPerHour) ∧
      (hours start stop = none ↔ maxSeconds < start.seconds + 3600 * (n + 1)) ∧
      ∀ times, hours start stop = some times → times.length = n ∧
        (∀ i < n, times[i]? = start.addHours? i) ∧ times.Pairwise (· < ·) := by
  refine ⟨hourCount start stop, fun i => lt_hourCount_iff, hourCount_eq_zero_iff.2,
    hourCount_eq_ceilDiv h, hours_eq_none_iff h, fun times htimes => ?_⟩
  obtain ⟨hlength, hlisted⟩ := of_hours_eq_some h htimes
  exact ⟨hlength, hlength ▸ hlisted, pairwise_lt_of_addHours? hlisted⟩

/-- An instant before 1970 that starts no hour. -/
def unalignedStart : Timestamp := ⟨-5399, 500, by decide⟩

/-- A little more than two hours later. -/
def unalignedStop : Timestamp := ⟨1801, 501, by decide⟩

/-- The last second of the calendar. -/
def lastSecond : Timestamp := ⟨maxSeconds, 0, by decide⟩

theorem hours_enumerate_unaligned :
    (unalignedStart.nanos < nanosPerSecond ∧ ∃ times,
      hours unalignedStart unalignedStop = some times ∧ times.length = 3 ∧
        times[2]? = unalignedStart.addHours? 2) ∧
      lastSecond.nanos < nanosPerSecond ∧ hours lastSecond lastSecond = none := by
  have hstart : unalignedStart.nanos < nanosPerSecond := by decide
  have hlast : lastSecond.nanos < nanosPerSecond := by decide
  obtain ⟨n, -, -, hceil, hnone, hlisted⟩ := @hours_enumerate unalignedStart unalignedStop hstart
  obtain rfl : n = 3 := hceil (by decide)
  obtain ⟨m, -, hempty, -, hnone', -⟩ := @hours_enumerate lastSecond lastSecond hlast
  obtain rfl : m = 0 := hempty (by decide)
  refine ⟨⟨hstart, ?_⟩, hlast, hnone'.2 (by decide)⟩
  cases htimes : hours unalignedStart unalignedStop with
  | none => exact absurd (hnone.1 htimes) (by decide)
  | some times =>
    obtain ⟨hlength, hat, -⟩ := hlisted times htimes
    exact ⟨times, rfl, hlength, hat 2 (by decide)⟩

end UsageBilling
