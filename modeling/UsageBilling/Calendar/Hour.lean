import UsageBilling.Calendar.Timestamp

/-!
# Hours

Usage is kept per full hour.  `Timestamp.isHourStart` tells the instants at which an hour starts,
`HourBucket` is the calendar decomposition under which an hour is stored, and `hours` lists the
hours of a half-open range.

The hour after the one in hand is always computed before the end of the range is looked at, so a
range that comes within two hours of the end of the calendar runs over it: `HourSpan` keeps that
apart from an ordinary end.
-/

namespace UsageBilling

/-- No minutes, seconds or smaller parts. -/
def Timestamp.isHourStart (t : Timestamp) : Bool :=
  t.minute = 0 && t.second = 0 && t.nanos = 0

/-- An hour with its place in the calendar. -/
structure HourBucket where
  timestamp : Timestamp
  year : Int
  month : Nat
  day : Nat
  hour : Nat
  deriving DecidableEq

/-- The decomposition of an instant. -/
def HourBucket.ofTimestamp (t : Timestamp) : HourBucket :=
  let (year, month, day) := t.date
  ⟨t, year, month, day, t.hour⟩

/-- Hours in order, and whether they end because the calendar does. -/
structure HourSpan where
  hours : List Timestamp
  pastCalendar : Bool
  deriving DecidableEq

/-- The hours `start, start + 1 h, …` before `stop`. -/
def hourSpan (start stop : Timestamp) : HourSpan :=
  match h : start.addHour? with
  | none => ⟨[], true⟩
  | some next =>
    if hlt : start < stop then
      have : (stop.seconds + 1 - next.seconds).toNat < (stop.seconds + 1 - start.seconds).toNat := by
        have := Timestamp.seconds_of_addHour? h
        have := Timestamp.lt_iff.1 hlt
        omega
      let rest := hourSpan next stop
      ⟨start :: rest.hours, rest.pastCalendar⟩
    else ⟨[], false⟩
termination_by (stop.seconds + 1 - start.seconds).toNat

/-- All hours of the range, unless the calendar ends first. -/
def hours (start stop : Timestamp) : Option (List Timestamp) :=
  let span := hourSpan start stop
  if span.pastCalendar then none else some span.hours

end UsageBilling
