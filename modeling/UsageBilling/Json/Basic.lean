import UsageBilling.Number.FloatText

/-!
# JSON values

A `Json` value is what a JSON text says, before anything is expected of it: numbers keep their
digits, objects keep the order and the repetition of their members, and a string whose escapes
leave half of a surrogate pair stays apart from proper text.
-/

namespace UsageBilling

/-- A number literal. -/
structure JsonNumber where
  negative : Bool
  whole : Nat
  /-- The digits behind the point, empty without a point. -/
  fraction : List Char
  exponent : Option Int
  deriving DecidableEq

/-- What a string literal stands for: nothing if it holds half of a surrogate pair, which no text
does. -/
abbrev JsonText := Option String

/-- A JSON value. -/
inductive Json where
  | null
  | bool (b : Bool)
  | number (n : JsonNumber)
  | string (s : JsonText)
  | array (items : List Json)
  | object (members : List (JsonText × Json))

namespace JsonNumber

/-- A whole number as a literal. -/
def ofInt (n : Int) : JsonNumber := ⟨n < 0, n.natAbs, [], none⟩

/-- A finite floating-point number as a literal with a point or an exponent, so that it does not
read as a whole number.  There is no exponent while the point stands among the first sixteen digits
or behind at most four zeros.  A tie goes to the even digit. -/
def ofFloat (x : Float) : JsonNumber :=
  let negative := FloatText.isNegative x
  if FloatText.mantissa x = 0 then ⟨negative, 0, ['0'], none⟩
  else
    let s := (FloatText.shortest roundHalfEven x).trim
    let digits := Text.decimal s.digits
    let point : Int := digits.length + s.scale
    if -5 < point && point ≤ 16 then
      let (whole, fraction) := s.positional
      ⟨negative, Text.value whole, if fraction = [] then ['0'] else fraction, none⟩
    else ⟨negative, Text.value (digits.take 1), digits.drop 1, some (point - 1)⟩

/-- The whole number of a literal without point and exponent, if it fits 64 bits, signed below
zero and unsigned above.  The literal `-0` is a floating-point number. -/
def toInt? (n : JsonNumber) : Option Int :=
  if n.fraction ≠ [] || n.exponent.isSome then none
  else if n.negative then
    if 0 < n.whole ∧ n.whole ≤ twoPow 63 then some (-(n.whole : Int)) else none
  else if n.whole < twoPow 64 then some n.whole
  else none

/-- A literal of digits alone. -/
theorem toInt?_digits (negative : Bool) (whole : Nat) : toInt? ⟨negative, whole, [], none⟩ =
    if negative then if 0 < whole ∧ whole ≤ twoPow 63 then some (-(whole : Int)) else none
    else if whole < twoPow 64 then some (whole : Int) else none := rfl

/-! ### Floating-point value

A literal is read into a significand of 64 bits and a power of ten: digits that do not fit are
dropped.  One multiplication or division by the power of ten follows, so the value may be off by
its last bit. -/

/-- Digits in front of the point: once one does not fit, each raises the power of ten. -/
def readWhole : (digits : List Char) → (significand : Nat) → (power : Int) → Nat × Int
  | [], significand, power => (significand, power)
  | c :: rest, significand, power =>
    let next := 10 * significand + Text.digitValue c
    if power = 0 ∧ next < twoPow 64 then readWhole rest next 0
    else readWhole rest significand (power + 1)

/-- Digits behind the point: from the first that does not fit, they are dropped. -/
def readFraction : (digits : List Char) → (significand : Nat) → (power : Int) → Nat × Int
  | [], significand, power => (significand, power)
  | c :: rest, significand, power =>
    let next := 10 * significand + Text.digitValue c
    if next < twoPow 64 then readFraction rest next (power - 1) else (significand, power)

/-- The power of ten as a floating-point number, for exponents up to 308. -/
def powerOfTen (n : Nat) : Float := Float.ofScientific 1 false n

/-- Divide by a power of ten, in steps of at most `10 ^ 308`. -/
def divideByPower (x : Float) (n : Nat) : Float :=
  if n ≤ 308 then x / powerOfTen n
  else if x == 0 then x
  else divideByPower (x / powerOfTen 308) (n - 308)
termination_by n

/-- Multiply by a power of ten; there is no result beyond the range of the format. -/
def multiplyByPower? (x : Float) (n : Nat) : Option Float :=
  if n ≤ 308 then
    let product := x * powerOfTen n
    if product.isInf then none else some product
  else if x == 0 then some x
  else none

/-- The floating-point value of a literal, if it is in range. -/
def toFloat? (n : JsonNumber) : Option Float :=
  let (significand, power) := readWhole (Text.decimal n.whole) 0 0
  let (significand, power) := readFraction n.fraction significand power
  let power := power + n.exponent.getD 0
  let x := (UInt64.ofNat significand).toFloat
  let magnitude :=
    if 0 ≤ power then multiplyByPower? x power.toNat else some (divideByPower x (-power).toNat)
  magnitude.map fun x => if n.negative then -x else x

end JsonNumber

namespace Json

/-- A text. -/
def text (s : String) : Json := .string (some s)

/-- A whole number. -/
def int (n : Int) : Json := .number (.ofInt n)

/-- A floating-point number, `null` if it is not finite. -/
def float (x : Float) : Json := if x.isFinite then .number (.ofFloat x) else .null

/-- A value or `null`. -/
def optional {α : Type} (f : α → Json) : Option α → Json
  | some a => f a
  | none => .null

/-- An object with the given fields. -/
def record (fields : List (String × Json)) : Json :=
  .object (fields.map fun (name, value) => (some name, value))

mutual

/-- How deep arrays and objects are nested. -/
def depth : Json → Nat
  | .array items => 1 + depthOfItems items
  | .object members => 1 + depthOfMembers members
  | _ => 0

def depthOfItems : List Json → Nat
  | [] => 0
  | j :: rest => max j.depth (depthOfItems rest)

def depthOfMembers : List (JsonText × Json) → Nat
  | [] => 0
  | (_, j) :: rest => max j.depth (depthOfMembers rest)

end

mutual

/-- Every string and key is proper text, and every number is in range. -/
def isProper : Json → Bool
  | .number n => n.toInt?.isSome || n.toFloat?.isSome
  | .string s => s.isSome
  | .array items => areProper items
  | .object members => membersAreProper members
  | _ => true

def areProper : List Json → Bool
  | [] => true
  | j :: rest => j.isProper && areProper rest

def membersAreProper : List (JsonText × Json) → Bool
  | [] => true
  | (key, j) :: rest => key.isSome && j.isProper && membersAreProper rest

end

end Json

end UsageBilling
