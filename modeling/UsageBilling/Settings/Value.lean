import UsageBilling.Json.Basic
import UsageBilling.Lookup

/-!
# Values of settings

A configuration is a tree of tables and lists.  Its leaves come from a file with their types and from the
environment as texts, and convert to what a setting needs: the words `true`, `yes`, `on`, `false`,
`no` and `off` count as numbers and as truth values, and numbers and truth values count as texts.

* `SettingValue.toUnsigned?`, `SettingValue.toBool?` and `SettingValue.toText?` convert;
* `SettingValue.overlay` lays a value over an older one, tables entry by entry.
-/

namespace UsageBilling

/-- A node of a configuration. -/
inductive SettingValue where
  | nil
  | bool (b : Bool)
  | int (n : Int)
  | float (x : Float)
  | text (s : String)
  | list (items : List SettingValue)
  | table (entries : List (String × SettingValue))

namespace SettingValue

/-- The entries of a table; anything else has none. -/
def entries : SettingValue → List (String × SettingValue)
  | .table entries => entries
  | _ => []

/-- The items of a list; anything else has none. -/
def items : SettingValue → List SettingValue
  | .list items => items
  | _ => []

/-- Set the entry of a name. -/
def setEntry (name : String) (v : SettingValue) :
    List (String × SettingValue) → List (String × SettingValue)
  | [] => [(name, v)]
  | entry :: rest => if entry.1 = name then (name, v) :: rest else entry :: setEntry name v rest

/-- Set the item at a position.  Places up to it that the list lacks come into being empty. -/
def setItem (position : Nat) (v : SettingValue) (items : List SettingValue) : List SettingValue :=
  items.take position ++ List.replicate (position - items.length) .nil ++
    v :: items.drop (position + 1)

@[simp] theorem getElem?_setItem (position : Nat) (v : SettingValue) (items : List SettingValue) :
    (setItem position v items)[position]? = some v := by
  have length_front :
      (items.take position ++
        List.replicate (position - items.length) SettingValue.nil).length = position := by
    simp only [List.length_append, List.length_take, List.length_replicate]
    omega
  rw [setItem, List.getElem?_append_right (by omega), length_front]
  simp

theorem lookup_setEntry (name other : String) (v : SettingValue)
    (entries : List (String × SettingValue)) :
    (setEntry name v entries).lookup other =
      if other = name then some v else entries.lookup other := by
  induction entries with
  | nil => simp [setEntry, lookup_cons_ite]
  | cons entry rest ih =>
    obtain ⟨first, old⟩ := entry
    simp only [setEntry]
    split
    · next heq =>
      subst heq
      simp only [lookup_cons_ite]
      split <;> rfl
    · next hne =>
      simp only [lookup_cons_ite, ih]
      split
      · next heq => simp [heq, hne]
      · rfl

/-! ### From JSON -/

/-- A number: whole if it fits 64 bits with a sign. -/
def ofNumber? (n : JsonNumber) : Option SettingValue :=
  match n.toInt? with
  | some i => if i < twoPow 63 then some (.int i) else n.toFloat?.map .float
  | none => n.toFloat?.map .float

mutual

def ofJson? : Json → Option SettingValue
  | .null => some .nil
  | .bool b => some (.bool b)
  | .number n => ofNumber? n
  | .string s => s.map .text
  | .array items => (ofItems? items).map .list
  | .object members => (ofMembers? members []).map .table

def ofItems? : List Json → Option (List SettingValue)
  | [] => some []
  | j :: rest =>
    match ofJson? j, ofItems? rest with
    | some v, some values => some (v :: values)
    | _, _ => none

/-- The entries of an object after `done`; the last value of a key counts. -/
def ofMembers? : (members : List (JsonText × Json)) → (done : List (String × SettingValue)) →
    Option (List (String × SettingValue))
  | [], done => some done
  | (key, j) :: rest, done =>
    match key, ofJson? j with
    | some key, some v => ofMembers? rest (setEntry key v done)
    | _, _ => none

end

/-! ### Laying one value over another -/

mutual

/-- A table goes over an older value entry by entry, and any other value replaces it. -/
def overlay : SettingValue → (old : Option SettingValue) → SettingValue
  | .table entries, old => overlayEntries entries (old.getD (.table []))
  | v, _ => v

def overlayEntries : List (String × SettingValue) → (old : SettingValue) → SettingValue
  | [], old => old
  | (name, v) :: rest, old =>
    overlayEntries rest (.table (setEntry name (overlay v (old.entries.lookup name)) old.entries))

end

/-! ### Conversions -/

/-- The largest whole number of 64 bits. -/
def maxUnsigned : Nat := twoPow 64 - 1

/-- A word that stands for a truth value, in any case of its letters. -/
def ofWord? (s : String) : Option Bool :=
  let word := String.ofList (s.toList.map Char.toLower)
  if word = "true" || word = "on" || word = "yes" then some true
  else if word = "false" || word = "off" || word = "no" then some false
  else none

/-- Decimal digits behind an optional plus sign, up to `maxUnsigned`. -/
def unsignedOfText? (s : String) : Option Nat :=
  let digits := match s.toList with
    | '+' :: rest => rest
    | cs => cs
  if digits ≠ [] && digits.all Text.isDigit && Text.value digits ≤ maxUnsigned then
    some (Text.value digits)
  else none

/-- The nearest whole number from 0 to `maxUnsigned`, a half away from zero. -/
def unsignedOfFloat (x : Float) : Nat :=
  if FloatText.isNegative x then 0
  else
    let m := FloatText.mantissa x
    let e := FloatText.exponent x
    min maxUnsigned
      (if 0 ≤ e then m * twoPow e.toNat
      else (m + twoPow ((-e).toNat - 1)) / twoPow (-e).toNat)

/-- The value as a whole number of 64 bits. -/
def toUnsigned? : SettingValue → Option Nat
  | .bool b => some b.toNat
  | .int n => if 0 ≤ n then some n.toNat else none
  | .float x => some (unsignedOfFloat x)
  | .text s => (ofWord? s).elim (unsignedOfText? s) fun b => some b.toNat
  | _ => none

/-- The value as a truth value: numbers other than zero are true, and of digits only 0 and 1 are
truth values. -/
def toBool? : SettingValue → Option Bool
  | .bool b => some b
  | .int n => some (n ≠ 0)
  | .float x => some (x != 0)
  | .text s => if s = "1" then some true else if s = "0" then some false else ofWord? s
  | _ => none

/-- The value as a text. -/
def toText? : SettingValue → Option String
  | .bool b => some (if b then "true" else "false")
  | .int n =>
    some (String.ofList ((if n < 0 then ['-'] else []) ++ Text.decimal n.natAbs))
  | .float x => some (FloatText.render x)
  | .text s => some s
  | _ => none

end SettingValue

end UsageBilling
