import UsageBilling.Number.Decimal
import UsageBilling.Text.Digits

/-!
# Decimal amounts as text

`Decimal.render` writes all places of a decimal and no exponent.  `Decimal.ofText?` reads that
form and more: a sign, underscores between digits, no digits on one side of the point, and an
exponent.

Of the digits that do not fit any more the first rounds the decimal, a half away from zero; those
behind it do not count.  A zero is read without its sign, which only a magnitude that an exponent
makes too small can keep.
-/

namespace UsageBilling.Decimal

/-- The decimal with all its places. -/
def render (x : Decimal) : String :=
  let digits := Text.padded (x.scale + 1) x.magnitude
  let (whole, fraction) := digits.splitAt (digits.length - x.scale)
  let sign := if x.negative then ['-'] else []
  String.ofList (sign ++ whole ++ if fraction = [] then [] else '.' :: fraction)

/-! ### Reading -/

/-- What has been read so far. -/
structure Reading where
  magnitude : Nat
  /-- The digits behind the point. -/
  places : Nat
  seenPoint : Bool
  seenDigit : Bool

/-- One unit of the last place away from zero.  If that does not fit, the last place is rounded
off. -/
def Reading.roundUp? (r : Reading) : Option Reading :=
  if r.magnitude + 1 < magnitudeLimit then some { r with magnitude := r.magnitude + 1 }
  else if r.places = 0 then none
  else some { r with magnitude := roundHalfUp (r.magnitude + 1) 10, places := r.places - 1 }

/-- End the reading behind the last digit that fits.  Only digits and underscores may follow, and
the first of them, if it is a digit from 5 up, rounds away from zero. -/
def Reading.finish? (r : Reading) (rest : List Char) : Option Reading :=
  if rest.all fun c => Text.isDigit c || c = '_' then
    match rest with
    | [] => some r
    | next :: _ => if Text.isDigit next && 5 ≤ Text.digitValue next then r.roundUp? else some r
  else none

/-- From here up another digit may not fit 64 bits, and a magnitude is large.  If it is so without
the last place, underscores between the last place and the digit that rounds are skipped.  If it is
not, such an underscore counts as the digit 0. -/
def largeMagnitude : Nat := twoPow 64 / 10 - 255

/-- Read digits, a point and underscores to the end of the text or of what fits. -/
def Reading.run? (r : Reading) : List Char → Option Reading
  | [] => if r.seenDigit then some r else none
  | c :: rest =>
    if Text.isDigit c then
      let magnitude := 10 * r.magnitude + Text.digitValue c
      if magnitude < magnitudeLimit then
        let places := if r.seenPoint then r.places + 1 else 0
        let read : Reading := { r with magnitude, places, seenDigit := true }
        if r.seenPoint && maxScale ≤ places then
          read.finish? (if largeMagnitude ≤ r.magnitude then rest.dropWhile (· = '_') else rest)
        else read.run? rest
      else if r.seenPoint then r.finish? (c :: rest)
      -- digits in front of the point all have to fit
      else none
    else if c = '.' && !r.seenPoint then Reading.run? { r with seenPoint := true } rest
    else if c = '_' && r.seenDigit then r.run? rest
    else none

/-- Read a decimal without an exponent. -/
def ofPlainText? (cs : List Char) : Option Decimal :=
  let (negative, body) := match cs with
    | '-' :: rest => (true, rest)
    | '+' :: rest => (false, rest)
    | rest => (false, rest)
  (Reading.run? ⟨0, 0, false, false⟩ body).bind fun r =>
    ofParts? (negative && r.magnitude ≠ 0) r.magnitude r.places

/-- A natural number in digits, which a plus may precede. -/
def exponentOf? (cs : List Char) : Option Nat :=
  let digits := match cs with
    | '+' :: rest => rest
    | rest => rest
  if digits ≠ [] && digits.all Text.isDigit then some (Text.value digits) else none

/-- The decimal with at most `places` places, a half rounded away from zero. -/
def roundTo? (x : Decimal) (places : Nat) : Option Decimal :=
  if x.scale ≤ places then some x
  else ofParts? x.negative (roundHalfUp x.magnitude (tenPow (x.scale - places))) places

/-- The decimal moved by a power of ten of at most 28.  Downwards the places grow, and those
beyond the last possible one are rounded off first.  Upwards they shrink, and once there are none
left the coefficient grows. -/
def shift? (x : Decimal) (downwards : Bool) (exponent : Nat) : Option Decimal :=
  if maxScale < exponent then none
  else if downwards then
    (x.roundTo? (maxScale - exponent)).bind fun x =>
      ofParts? x.negative x.magnitude (x.scale + exponent)
  else if exponent ≤ x.scale then ofParts? x.negative x.magnitude (x.scale - exponent)
  else ofParts? x.negative (x.magnitude * tenPow (exponent - x.scale)) 0

/-- Read a decimal with an exponent. -/
def ofScientificText? (cs : List Char) : Option Decimal := do
  let isMark (c : Char) : Bool := c = 'e' || c = 'E'
  let base ← ofPlainText? (cs.takeWhile fun c => !isMark c)
  match cs.dropWhile fun c => !isMark c with
  | [] => none
  | _ :: '-' :: digits => base.shift? true (← exponentOf? digits)
  | _ :: digits => base.shift? false (← exponentOf? digits)

/-- Read a decimal, with or without an exponent. -/
def ofText? (s : String) : Option Decimal :=
  (ofPlainText? s.toList).orElse fun _ => ofScientificText? s.toList

end UsageBilling.Decimal
