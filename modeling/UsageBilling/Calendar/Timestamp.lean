import UsageBilling.Calendar.Date

/-!
# Instants

A `Timestamp` is an instant of UTC with nanoseconds, between the two ends of the calendar.  A leap
second is written as its preceding second with `10 ^ 9` nanoseconds or more, so instants are ordered
by seconds and then nanoseconds.  Leap seconds are inserted behind the last second of a minute, but
nothing keeps an instant from having such nanoseconds behind another one; `Timestamp.ofUnix?` makes
none of these.

`Timestamp.addHour?` is the same instant of the next hour; it has none at the end of the calendar.
-/

namespace UsageBilling

/-- Nanoseconds in a second. -/
def nanosPerSecond : Nat := 1000000000

/-- Unix seconds of the first instant of the calendar. -/
def minSeconds : Int := -8334601228800

/-- Unix seconds of the last second of the calendar. -/
def maxSeconds : Int := 8210266876799

/-- Seconds and nanoseconds of an instant.  From `10 ^ 9` nanoseconds up they belong to a leap
second, whatever second it follows. -/
def IsInstant (seconds : Int) (nanos : Nat) : Prop :=
  minSeconds ≤ seconds ∧ seconds ≤ maxSeconds ∧ nanos < 2 * nanosPerSecond

instance (seconds : Int) (nanos : Nat) : Decidable (IsInstant seconds nanos) :=
  inferInstanceAs (Decidable (_ ∧ _))

/-- A clock can show them: a leap second only follows the last second of a minute. -/
def OnClock (seconds : Int) (nanos : Nat) : Prop := nanos < nanosPerSecond ∨ seconds % 60 = 59

instance (seconds : Int) (nanos : Nat) : Decidable (OnClock seconds nanos) :=
  inferInstanceAs (Decidable (_ ∨ _))

/-- An instant of UTC. -/
structure Timestamp where
  /-- Seconds since 1 January 1970. -/
  seconds : Int
  nanos : Nat
  isInstant : IsInstant seconds nanos
  deriving DecidableEq

namespace Timestamp

/-- The instant at the given Unix seconds and nanoseconds, if there is one that a clock can show. -/
def ofUnix? (seconds : Int) (nanos : Nat) : Option Timestamp :=
  if h : IsInstant seconds nanos ∧ OnClock seconds nanos then some ⟨seconds, nanos, h.1⟩ else none

/-- Midnight at the start of a date. -/
def midnight (d : Date) : Timestamp where
  seconds := 86400 * d.dayNumber
  nanos := 0
  isInstant := by
    have h := d.dayNumber_mem
    have hmin : Date.min.dayNumber = -96465292 := by decide
    have hmax : Date.max.dayNumber = 95026236 := by decide
    rw [hmin, hmax] at h
    refine ⟨?_, ?_, by decide⟩
    · unfold minSeconds; omega
    · unfold maxSeconds; omega

/-- Earlier in time. -/
instance : LT Timestamp where
  lt a b := a.seconds < b.seconds ∨ (a.seconds = b.seconds ∧ a.nanos < b.nanos)

instance (a b : Timestamp) : Decidable (a < b) := inferInstanceAs (Decidable (_ ∨ _))

theorem lt_iff {a b : Timestamp} :
    a < b ↔ a.seconds < b.seconds ∨ (a.seconds = b.seconds ∧ a.nanos < b.nanos) := Iff.rfl

/-! ### Parts of an instant -/

/-- The days since 1 January 1970. -/
def dayNumber (t : Timestamp) : Int := t.seconds / 86400

/-- The second of the day. -/
def secondOfDay (t : Timestamp) : Nat := (t.seconds % 86400).toNat

/-- The year, month and day. -/
def date (t : Timestamp) : Int × Nat × Nat := civil t.dayNumber

/-- The hour of the day. -/
def hour (t : Timestamp) : Nat := t.secondOfDay / 3600

/-- The minute of the hour. -/
def minute (t : Timestamp) : Nat := t.secondOfDay / 60 % 60

/-- The second of the minute, for a leap second the one it follows. -/
def second (t : Timestamp) : Nat := t.secondOfDay % 60

/-! ### The next hour -/

/-- One hour later.  A leap second has no counterpart an hour later: its fraction goes on in the
second after that hour. -/
def addHour? (t : Timestamp) : Option Timestamp :=
  ofUnix? (t.seconds + 3600) (if t.nanos < nanosPerSecond then t.nanos else t.nanos - nanosPerSecond)

theorem ofUnix?_eq_some {seconds : Int} {nanos : Nat} {t : Timestamp} :
    ofUnix? seconds nanos = some t ↔
      (t.seconds = seconds ∧ t.nanos = nanos) ∧ OnClock seconds nanos := by
  unfold ofUnix?
  constructor
  · intro h
    split at h
    · next hunix => simp only [Option.some.injEq] at h; subst h; exact ⟨⟨rfl, rfl⟩, hunix.2⟩
    · cases h
  · rintro ⟨⟨rfl, rfl⟩, hclock⟩
    rw [dif_pos ⟨t.isInstant, hclock⟩]

theorem seconds_of_addHour? {t u : Timestamp} (h : t.addHour? = some u) :
    u.seconds = t.seconds + 3600 := (ofUnix?_eq_some.1 h).1.1

end Timestamp

end UsageBilling
