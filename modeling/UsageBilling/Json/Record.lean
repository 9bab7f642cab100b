import UsageBilling.Calendar.Rfc3339
import UsageBilling.Json.Basic
import UsageBilling.Number.DecimalText
import UsageBilling.Uuid

/-!
# Records in JSON

A record is an object with its fields by name, or an array of them in the declared order.  In an
object unknown fields are skipped, a known field may stand only once, and only optional fields may
be missing.

Each `as…?` function reads one kind of field value.
-/

namespace UsageBilling.Json

/-! ### Field values -/

def asText? : Json → Option String
  | .string s => s
  | _ => none

def asBool? : Json → Option Bool
  | .bool b => some b
  | _ => none

/-- A floating-point number in range. -/
def asFloat? : Json → Option Float
  | .number n => n.toFloat?
  | _ => none

/-- A whole number that fits 32 bits with a sign. -/
def asInt32? : Json → Option Int
  | .number n => n.toInt?.filter fun i => -(twoPow 31 : Int) ≤ i && i < twoPow 31
  | _ => none

def asUuid? (j : Json) : Option Uuid := j.asText?.bind Uuid.ofText?

def asTimestamp? (j : Json) : Option Timestamp := j.asText?.bind Timestamp.ofRfc3339?

/-- A decimal in text, or a number.  A number with a point or an exponent counts as the shortest
decimal of its floating-point value. -/
def asDecimal? : Json → Option Decimal
  | .string s => s.bind Decimal.ofText?
  | .number n =>
    match n.toInt? with
    | some i => Decimal.ofParts? (i < 0) i.natAbs 0
    | none => n.toFloat?.bind fun x => Decimal.ofText? (FloatText.render x)
  | _ => none

/-- Every item of an array. -/
def asListOf? {α : Type} (read? : Json → Option α) : Json → Option (List α)
  | .array items => items.mapM read?
  | _ => none

/-- Every member of an object, in order. -/
def asMembersOf? {α : Type} (read? : Json → Option α) : Json → Option (List (String × α))
  | .object members => members.mapM fun (key, j) => key.bind fun key => (read? j).map (key, ·)
  | _ => none

/-! ### Fields -/

/-- What a record holds for each of its fields, in the declared order. -/
abbrev Fields := List (Option Json)

/-- The members of an object with the given key. -/
def membersNamed (name : String) (members : List (JsonText × Json)) : List Json :=
  (members.filter fun (key, _) => key = some name).map (·.2)

/-- The fields of an object; none may stand twice, and all keys have to be text. -/
def fieldsOfObject? (names : List String) (members : List (JsonText × Json)) : Option Fields :=
  if members.all fun (key, _) => key.isSome then
    names.mapM fun name =>
      match membersNamed name members with
      | [] => some none
      | [j] => some (some j)
      | _ => none
  else none

/-- The fields of a record of which the last `spare` may be left out of an array. -/
def fieldsWithSpare? (names : List String) (spare : Nat) : Json → Option Fields
  | .object members => fieldsOfObject? names members
  | .array items =>
    if items.length ≤ names.length ∧ names.length ≤ items.length + spare then
      some (items.map some ++ List.replicate (names.length - items.length) none)
    else none
  | _ => none

/-- The fields of a record. -/
def fields? (names : List String) (j : Json) : Option Fields := fieldsWithSpare? names 0 j

/-- A field that has to be there. -/
def required {α : Type} (read? : Json → Option α) (field : Option Json) : Option α :=
  field.bind read?

/-- A field that may be missing or `null`. -/
def nullable {α : Type} (read? : Json → Option α) : Option Json → Option (Option α)
  | none => some none
  | some .null => some none
  | some j => (read? j).map some

end UsageBilling.Json
