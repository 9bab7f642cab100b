import UsageBilling.Settings.Value

/-!
# Paths into a configuration

A key such as `log.level` or `servers[0].name` leads through the tree of a configuration.  Items
count from 0, and from the end of the list if they are negative.  A key that does not have this form
is the name of one entry.
-/

namespace UsageBilling

/-- A step from a node to one of its parts. -/
inductive SettingStep where
  | entry (name : String)
  | item (index : Int)
  deriving DecidableEq

namespace SettingPath

/-- A character of a name in a path. -/
def isNameChar (c : Char) : Bool := c.isAlphanum || c = '_' || c = '-' || c = ' '

/-- A name at the front of a text. -/
def takeName? (cs : List Char) : Option (String × List Char) :=
  let name := cs.takeWhile isNameChar
  if name = [] then none else some (String.ofList name, cs.dropWhile isNameChar)

/-- Blanks and tabs may stand around the index of an item. -/
def isSpace (c : Char) : Bool := c = ' ' || c = '\t'

/-- The index of an item, which has 64 bits with its sign, and the closing bracket. -/
def takeItem? (cs : List Char) : Option (Int × List Char) :=
  let (negative, cs) := match cs.dropWhile isSpace with
    | '-' :: rest => (true, rest)
    | rest => (false, rest)
  let (digits, rest) := Text.spanDigits cs
  let index : Int := if negative then -(Text.value digits : Int) else Text.value digits
  match rest.dropWhile isSpace with
  | ']' :: rest =>
    if digits ≠ [] ∧ -(twoPow 63 : Int) ≤ index ∧ index < twoPow 63 then some (index, rest)
    else none
  | _ => none

/-- The steps behind the first name.  The fuel bounds their number; the length of the text is
enough. -/
def stepsFrom? : (fuel : Nat) → List Char → Option (List SettingStep)
  | _, [] => some []
  | 0, _ :: _ => none
  | fuel + 1, '.' :: rest => do
    let (name, rest) ← takeName? rest
    (stepsFrom? fuel rest).map (.entry name :: ·)
  | fuel + 1, '[' :: rest => do
    let (index, rest) ← takeItem? rest
    (stepsFrom? fuel rest).map (.item index :: ·)
  | _ + 1, _ :: _ => none

/-- The steps that a key spells out. -/
def parse? (key : String) : Option (List SettingStep) := do
  let (name, rest) ← takeName? key.toList
  (stepsFrom? rest.length rest).map (.entry name :: ·)

/-- The steps of a key. -/
def ofKey (key : String) : List SettingStep := (parse? key).getD [.entry key]

end SettingPath

namespace SettingValue

/-- No list can have as many items. -/
def itemLimit : Nat := twoPow 57

/-- The position that an index means in a list of some length, if there can be such an item. -/
def position? (index : Int) (length : Nat) : Option Nat :=
  if 0 ≤ index then if index < itemLimit then some index.toNat else none
  else if index.natAbs ≤ length then some (length - index.natAbs)
  else none

/-- Put a value where the steps lead to.  What is in the way of a step gives way.  A table is laid
over an entry that is there, but takes the place of an item. -/
def put? (v : SettingValue) : List SettingStep → (old : Option SettingValue) → Option SettingValue
  | [], old => some (v.overlay old)
  | .entry name :: rest, old => do
    let entries := (old.getD .nil).entries
    some (.table (setEntry name (← v.put? rest (entries.lookup name)) entries))
  | .item index :: rest, old => do
    let items := (old.getD .nil).items
    let position ← position? index items.length
    let item ← v.put? rest (if rest = [] then none else items[position]?)
    some (.list (setItem position item items))

end SettingValue

end UsageBilling
