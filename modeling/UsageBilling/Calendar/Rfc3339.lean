import UsageBilling.Calendar.Timestamp
import UsageBilling.Number.Power
import UsageBilling.Text.Blank
import UsageBilling.Text.Digits

/-!
# Instants as text

Writing: `Timestamp.rfc3339` gives `2021-12-01T00:00:00` with a zone mark, `Timestamp.display`
gives `2021-12-01 00:00:00 UTC`.  Years outside 0 to 9999 carry a sign, a fraction has three, six
or nine digits as it needs, and a leap second is second 60.

Reading: `Timestamp.ofRfc3339?` accepts any offset, and is lenient: numbers may lack leading
zeros, and white space may precede numbers and marks.
-/

namespace UsageBilling

/-! ### Writing -/

/-- A year: four digits, with a sign outside 0 to 9999. -/
def yearText (y : Int) : List Char :=
  if 0 ≤ y ∧ y ≤ 9999 then Text.padded 4 y.toNat
  else (if y < 0 then '-' else '+') :: Text.padded 4 y.natAbs

/-- The fraction of a second: nothing, or a point and three, six or nine digits. -/
def fractionText (nanos : Nat) : List Char :=
  if nanos = 0 then []
  else if nanos % 1000000 = 0 then '.' :: Text.padded 3 (nanos / 1000000)
  else if nanos % 1000 = 0 then '.' :: Text.padded 6 (nanos / 1000)
  else '.' :: Text.padded 9 nanos

namespace Timestamp

/-- Year, month and day. -/
def dateText (t : Timestamp) : List Char :=
  let (y, m, d) := t.date
  yearText y ++ '-' :: Text.padded 2 m ++ '-' :: Text.padded 2 d

/-- Hour, minute and second, where a leap second is second 60. -/
def clockText (t : Timestamp) : List Char :=
  let second := if t.nanos < nanosPerSecond then t.second else t.second + 1
  Text.padded 2 t.hour ++ ':' :: Text.padded 2 t.minute ++ ':' :: Text.padded 2 second

/-- The fraction of the second. -/
def subsecondText (t : Timestamp) : List Char :=
  fractionText (if t.nanos < nanosPerSecond then t.nanos else t.nanos - nanosPerSecond)

/-- Date and time with a mark for UTC, such as `Z` or `+00:00`. -/
def rfc3339 (zone : String) (t : Timestamp) : String :=
  String.ofList (t.dateText ++ 'T' :: t.clockText ++ t.subsecondText) ++ zone

/-- `rfc3339` without the fraction. -/
def rfc3339Seconds (zone : String) (t : Timestamp) : String :=
  String.ofList (t.dateText ++ 'T' :: t.clockText) ++ zone

/-- The form of instants in messages. -/
def display (t : Timestamp) : String :=
  String.ofList (t.dateText ++ ' ' :: t.clockText ++ t.subsecondText) ++ " UTC"

end Timestamp

/-! ### Reading

Each step takes a part off the front of the text. -/

/-- A number of one to `width` digits, after white space. -/
def takeNumber? (width : Nat) (cs : List Char) : Option (Nat × List Char) :=
  let cs := Text.trimStart cs
  let digits := (cs.take width).takeWhile Text.isDigit
  if digits = [] then none else some (Text.value digits, cs.drop digits.length)

/-- A year, after white space: one to four digits, or a sign and any number of digits. -/
def takeYear? (cs : List Char) : Option (Int × List Char) :=
  match Text.trimStart cs with
  | '-' :: cs =>
    let (digits, rest) := Text.spanDigits cs
    if digits = [] then none else some (-(Text.value digits : Int), rest)
  | '+' :: cs =>
    let (digits, rest) := Text.spanDigits cs
    if digits = [] then none else some ((Text.value digits : Int), rest)
  | cs => (takeNumber? 4 cs).map fun (n, rest) => ((n : Int), rest)

/-- A mark, after white space. -/
def takeMark? (mark : Char) (cs : List Char) : Option (List Char) :=
  match Text.trimStart cs with
  | c :: rest => if c = mark then some rest else none
  | [] => none

/-- A fraction of a second in nanoseconds, if a point starts one.  Digits after the ninth are
skipped. -/
def takeFraction? : List Char → Option (Nat × List Char)
  | '.' :: cs =>
    let (digits, rest) := Text.spanDigits cs
    if digits = [] then none
    else
      -- fewer than nine digits stand for tenths, hundredths and so on
      let kept := digits.take 9
      some (Text.value kept * tenPow (9 - kept.length), rest)
  | cs => some (0, cs)

/-- An offset from UTC in seconds: `Z`, `UTC`, or a sign with two digits of hours and two of
minutes, which colons and white space may separate. -/
def takeOffset? (cs : List Char) : Option (Int × List Char) :=
  match cs with
  | 'Z' :: rest | 'z' :: rest => some (0, rest)
  | c :: rest =>
    if (cs.take 3).map Char.toUpper = ['U', 'T', 'C'] then some (0, cs.drop 3)
    else if c = '+' || c = '-' || c = '\u2212' then
      match rest with
      | h1 :: h2 :: rest =>
        match rest.dropWhile fun c => c = ':' || Text.isBlank c with
        | m1 :: m2 :: rest =>
          if [h1, h2, m1, m2].all Text.isDigit && Text.digitValue m1 ≤ 5 then
            let offset : Int := Text.value [h1, h2] * 3600 + Text.value [m1, m2] * 60
            some (if c = '+' then offset else -offset, rest)
          else none
        | _ => none
      | _ => none
    else none
  | [] => none

/-- The parts of a date and time as they stand in a text. -/
structure DateTimeParts where
  year : Int
  month : Nat
  day : Nat
  hour : Nat
  minute : Nat
  /-- Up to 60, for a leap second. -/
  second : Nat
  nanos : Nat
  /-- Seconds to the east of UTC. -/
  offset : Int

/-- The parts, if the text has nothing else but white space around them. -/
def DateTimeParts.ofText? (cs : List Char) : Option DateTimeParts := do
  let (year, cs) ← takeYear? cs
  let cs ← takeMark? '-' cs
  let (month, cs) ← takeNumber? 2 cs
  let cs ← takeMark? '-' cs
  let (day, cs) ← takeNumber? 2 cs
  let cs ← match cs with
    | 'T' :: rest | 't' :: rest | ' ' :: rest => some rest
    | _ => none
  let (hour, cs) ← takeNumber? 2 cs
  let cs ← takeMark? ':' cs
  let (minute, cs) ← takeNumber? 2 cs
  let cs ← takeMark? ':' cs
  let (second, cs) ← takeNumber? 2 cs
  let (nanos, cs) ← takeFraction? cs
  let (offset, cs) ← takeOffset? (Text.trimStart cs)
  if Text.trimStart cs = [] then some ⟨year, month, day, hour, minute, second, nanos, offset⟩
  else none

/-- The instant the parts name, if they are in range and it lies in the calendar. -/
def DateTimeParts.toTimestamp? (p : DateTimeParts) : Option Timestamp := do
  let date ← Date.ofYmd? p.year p.month p.day
  if p.hour ≤ 23 ∧ p.minute ≤ 59 ∧ p.second ≤ 60 ∧ p.offset.natAbs < 86400 then
    let (second, nanos) :=
      if p.second = 60 then (59, p.nanos + nanosPerSecond) else (p.second, p.nanos)
    Timestamp.ofUnix?
      (86400 * date.dayNumber + p.hour * 3600 + p.minute * 60 + second - p.offset) nanos
  else none

/-- Read a date and time with an offset. -/
def Timestamp.ofRfc3339? (s : String) : Option Timestamp :=
  (DateTimeParts.ofText? s.toList).bind DateTimeParts.toTimestamp?

end UsageBilling
