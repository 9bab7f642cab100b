import UsageBilling.Number.Power
import UsageBilling.Number.Rounding
import UsageBilling.Text.Digits

/-!
# Floating-point numbers as text

* `FloatText.render` writes the fewest decimal digits that read back as the same number, always
  without an exponent;
* `FloatText.parse` reads a decimal, rounded to the nearest number, or a name such as `inf`;
* `FloatText.toHex` and `FloatText.ofHex?` are the sixteen hexadecimal digits of the bits.

The shortest decimal is found in whole numbers: a finite number is `mantissa * 2 ^ exponent`, and
the decimals that read back as it fill an interval around it.  Of the shortest decimals the nearest
is taken; where two are as near, the format that is written decides, so the rounding of the last
digit is a parameter.
-/

namespace UsageBilling.FloatText

/-! ### Fields of a number -/

/-- The sign bit. -/
def isNegative (x : Float) : Bool := twoPow 63 ≤ x.toBits.toNat

/-- The eleven bits of the exponent. -/
def exponentField (x : Float) : Nat := x.toBits.toNat / twoPow 52 % twoPow 11

/-- The bits after the point. -/
def fractionField (x : Float) : Nat := x.toBits.toNat % twoPow 52

/-- The whole number that the power of two of a finite number scales. -/
def mantissa (x : Float) : Nat :=
  if exponentField x = 0 then fractionField x else twoPow 52 + fractionField x

/-- The power of two of a finite number. -/
def exponent (x : Float) : Int :=
  if exponentField x = 0 then -1074 else (exponentField x : Int) - 1075

/-! ### The shortest decimal -/

/-- A positive decimal: its digits as one number, and the power of ten of the last digit. -/
structure Shortest where
  digits : Nat
  scale : Int
  deriving DecidableEq

/-- The interval whose decimals read back as `x`, in quarters of the last bit, and whether its
ends do so as well. -/
def readBackInterval (x : Float) : Nat × Nat × Bool :=
  let m := 4 * mantissa x
  -- below a power of two the numbers lie twice as close
  let low := if fractionField x = 0 && 1 < exponentField x then m - 1 else m - 2
  (low, m + 2, mantissa x % 2 = 0)

/-- `quarters * 2 ^ (exponent - 2) / 10 ^ scale` as a numerator and a denominator, the latter
independent of `quarters`. -/
def inUnitsOf (scale : Int) (quarters : Nat) (exponent : Int) : Nat × Nat :=
  let e := exponent - 2
  (quarters * twoPow e.toNat * tenPow (-scale).toNat, twoPow (-e).toNat * tenPow scale.toNat)

/-- Of the two neighbours of `x` among the multiples of `10 ^ scale`, the nearest that reads back
as `x`, if one does. -/
def neighbour? (round : Nat → Nat → Nat) (x : Float) (scale : Int) : Option Nat :=
  let (low, high, closed) := readBackInterval x
  let (num, den) := inUnitsOf scale (4 * mantissa x) (exponent x)
  let low := (inUnitsOf scale low (exponent x)).1
  let high := (inUnitsOf scale high (exponent x)).1
  let readsBack (c : Nat) : Bool :=
    if closed then low ≤ c * den && c * den ≤ high else low < c * den && c * den < high
  let below := num / den
  let nearest := round num den
  let other := if nearest = below then below + 1 else below
  if readsBack nearest then some nearest else if readsBack other then some other else none

/-- The power of ten of the first digit of a positive quotient.  The binary logarithm gives it up
to one. -/
def firstDigitPower (num den : Nat) : Int :=
  let guess : Int := ((num.log2 : Int) - den.log2) * 1233 / 4096
  let reaches (k : Int) : Bool := den * tenPow k.toNat ≤ num * tenPow (-k).toNat
  if reaches (guess + 1) then guess + 1 else if reaches guess then guess else guess - 1

/-- The shortest decimal that reads back as a finite number other than zero.  Seventeen digits
always suffice. -/
def shortest (round : Nat → Nat → Nat) (x : Float) : Shortest :=
  let (num, den) := inUnitsOf 0 (4 * mantissa x) (exponent x)
  let first := firstDigitPower num den
  -- one digit first, then one more at a time
  let candidates : List Shortest := (List.range 17).filterMap fun (n : Nat) =>
    let scale : Int := first - n
    (neighbour? round x scale).map fun digits => ⟨digits, scale⟩
  candidates.headD ⟨0, 0⟩

/-- Drop the zeros at the end of the digits. -/
def Shortest.trim (s : Shortest) : Shortest :=
  let zeros := ((Text.decimal s.digits).reverse.takeWhile (· == '0')).length
  ⟨s.digits / tenPow zeros, s.scale + zeros⟩

/-- The digits before and after the point, without an exponent. -/
def Shortest.positional (s : Shortest) : List Char × List Char :=
  let text := Text.decimal s.digits
  if 0 ≤ s.scale then (text ++ List.replicate s.scale.toNat '0', [])
  else
    let places := (-s.scale).toNat
    if places < text.length then text.splitAt (text.length - places)
    else (['0'], List.replicate (places - text.length) '0' ++ text)

/-- The digits of a finite number before and after the point, without its sign.  A tie goes to the
larger digit. -/
def positional (x : Float) : List Char × List Char :=
  if mantissa x = 0 then (['0'], []) else (shortest roundHalfUp x).trim.positional

/-- The number as text, never with an exponent. -/
def render (x : Float) : String :=
  if x.isNaN then "NaN"
  else
    let sign := if isNegative x then ['-'] else []
    if x.isInf then String.ofList (sign ++ ['i', 'n', 'f'])
    else
      let (whole, fraction) := positional x
      String.ofList (sign ++ whole ++ if fraction = [] then [] else '.' :: fraction)

/-! ### Reading -/

def infinity : Float := 1 / 0

def nan : Float := 0 / 0

/-- The nearest number to `digits * 10 ^ scale`.  Far outside the range of the format the powers
of ten need not be computed. -/
def ofDecimal (digits : Nat) (scale : Int) : Float :=
  let magnitude : Int := (Text.decimal digits).length + scale
  if digits = 0 || magnitude < -400 then 0
  else if 400 < magnitude then infinity
  else Float.ofScientific digits (scale < 0) scale.natAbs

/-- Why a text is no number. -/
inductive Error where
  | empty
  | invalid
  deriving DecidableEq

def Error.message : Error → String
  | .empty => "cannot parse float from empty string"
  | .invalid => "invalid float literal"

/-- The exponent that ends a decimal: nothing, or a letter, a sign and digits. -/
def exponentOf? : List Char → Option Int
  | [] => some 0
  | c :: rest =>
    if c = 'e' || c = 'E' then
      let (sign, digits) : Int × List Char := match rest with
        | '-' :: digits => (-1, digits)
        | '+' :: digits => (1, digits)
        | digits => (1, digits)
      if digits ≠ [] && digits.all Text.isDigit then some (sign * Text.value digits) else none
    else none

/-- A decimal without sign: digits, of which a point may stand in front, between or behind, and
an exponent. -/
def magnitudeOf? (cs : List Char) : Option Float := do
  let (whole, rest) := Text.spanDigits cs
  let (fraction, rest) := match rest with
    | '.' :: rest => Text.spanDigits rest
    | rest => ([], rest)
  let exponent ← exponentOf? rest
  if whole = [] && fraction = [] then none
  else some (ofDecimal (Text.value (whole ++ fraction)) (exponent - fraction.length))

/-- A sign at the front, and the rest. -/
def takeSign : List Char → Bool × List Char
  | '-' :: rest => (true, rest)
  | '+' :: rest => (false, rest)
  | rest => (false, rest)

/-- Read a number: an optional sign and then a decimal, `inf`, `infinity` or `nan` in any case. -/
def parse (s : String) : Except Error Float :=
  if s = "" then .error .empty
  else
    let (negative, body) := takeSign s.toList
    let name := String.ofList (body.map Char.toLower)
    let magnitude :=
      if name = "inf" || name = "infinity" then some infinity
      else if name = "nan" then some nan
      else magnitudeOf? body
    match magnitude with
    | some x => .ok (if negative then -x else x)
    | none => .error .invalid

/-! ### Bits as text -/

/-- The sixteen hexadecimal digits of the bits, or `NaN`. -/
def toHex (x : Float) : String :=
  if x.isNaN then "NaN" else String.ofList (Text.hex 16 x.toBits.toNat)

/-- Read `toHex` back. -/
def ofHex? (s : String) : Option Float :=
  if s = "NaN" then some nan
  else if s.length = 16 then (Text.readHex? s.toList).map fun n => Float.ofBits (UInt64.ofNat n)
  else none

end UsageBilling.FloatText
