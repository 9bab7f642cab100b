import UsageBilling.Json.Basic

/-!
# Reading JSON

`Json.parse?` reads a whole text.  A string is read in two steps: its literal into characters and
the surrogates its escapes name (`scanString`), and these into text (`textOfUnits`).
-/

namespace UsageBilling.Json

/-- White space between tokens. -/
def isSpace (c : Char) : Bool := c = ' ' || c = '\n' || c = '\t' || c = '\r'

def skipSpace (cs : List Char) : List Char := cs.dropWhile isSpace

/-! ### Strings -/

/-- A part of a string literal: a character, or a surrogate that an escape names. -/
inductive StringUnit where
  | char (c : Char)
  | surrogate (n : Nat)
  deriving DecidableEq

/-- What a four-digit escape names. -/
def unitOfEscape (n : Nat) : StringUnit :=
  if 0xd800 ≤ n && n ≤ 0xdfff then .surrogate n else .char (Char.ofNat n)

/-- The character of an escape of one letter. -/
def letterEscape? : Char → Option Char
  | '"' => some '"'
  | '\\' => some '\\'
  | '/' => some '/'
  | 'b' => some '\x08'
  | 'f' => some '\x0c'
  | 'n' => some '\n'
  | 'r' => some '\r'
  | 't' => some '\t'
  | _ => none

/-- The parts of a string literal up to its closing quote, and what follows it. -/
def scanString : List Char → Option (List StringUnit × List Char)
  | [] => none
  | '"' :: rest => some ([], rest)
  | '\\' :: 'u' :: a :: b :: c :: d :: rest =>
    match Text.readHex? [a, b, c, d], scanString rest with
    | some n, some (units, rest) => some (unitOfEscape n :: units, rest)
    | _, _ => none
  | '\\' :: c :: rest =>
    match letterEscape? c, scanString rest with
    | some c, some (units, rest) => some (.char c :: units, rest)
    | _, _ => none
  | c :: rest =>
    if c.toNat < 0x20 then none
    else (scanString rest).map fun (units, rest) => (.char c :: units, rest)

/-- The characters of the parts.  A leading and a trailing surrogate make one character; any
other surrogate makes the string no text. -/
def textOfUnits : List StringUnit → Option (List Char)
  | [] => some []
  | .char c :: rest => (textOfUnits rest).map (c :: ·)
  | .surrogate high :: .surrogate low :: rest =>
    if high < 0xdc00 && 0xdc00 ≤ low then
      (textOfUnits rest).map (Char.ofNat (0x10000 + (high - 0xd800) * 0x400 + (low - 0xdc00)) :: ·)
    else none
  | .surrogate _ :: _ => none

/-- A string literal behind its opening quote. -/
def takeString? (cs : List Char) : Option (JsonText × List Char) :=
  (scanString cs).map fun (units, rest) => ((textOfUnits units).map String.ofList, rest)

/-! ### Numbers -/

/-- The digits in front of the point: a zero alone, or digits that do not start with zero. -/
def takeWhole? : List Char → Option (Nat × List Char)
  | '0' :: rest => some (0, rest)
  | cs =>
    let (digits, rest) := Text.spanDigits cs
    if digits = [] then none else some (Text.value digits, rest)

/-- A point with digits, or nothing. -/
def takeFraction? : List Char → Option (List Char × List Char)
  | '.' :: rest =>
    let (digits, rest) := Text.spanDigits rest
    if digits = [] then none else some (digits, rest)
  | cs => some ([], cs)

/-- An exponent, or nothing. -/
def takeExponent? : List Char → Option (Option Int × List Char)
  | 'e' :: rest | 'E' :: rest =>
    let (sign, rest) : Int × List Char := match rest with
      | '-' :: rest => (-1, rest)
      | '+' :: rest => (1, rest)
      | rest => (1, rest)
    let (digits, rest) := Text.spanDigits rest
    if digits = [] then none else some (some (sign * Text.value digits), rest)
  | cs => some (none, cs)

/-- A number literal. -/
def takeNumber? (cs : List Char) : Option (JsonNumber × List Char) := do
  let (negative, cs) := match cs with
    | '-' :: rest => (true, rest)
    | rest => (false, rest)
  let (whole, cs) ← takeWhole? cs
  let (fraction, cs) ← takeFraction? cs
  let (exponent, cs) ← takeExponent? cs
  some (⟨negative, whole, fraction, exponent⟩, cs)

/-! ### Values

The fuel bounds the number of nested steps; two for each character are more than enough. -/

mutual

/-- A value, after white space. -/
def takeValue? : (fuel : Nat) → List Char → Option (Json × List Char)
  | 0, _ => none
  | fuel + 1, cs =>
    match skipSpace cs with
    | 'n' :: 'u' :: 'l' :: 'l' :: rest => some (.null, rest)
    | 't' :: 'r' :: 'u' :: 'e' :: rest => some (.bool true, rest)
    | 'f' :: 'a' :: 'l' :: 's' :: 'e' :: rest => some (.bool false, rest)
    | '"' :: rest => (takeString? rest).map fun (s, rest) => (.string s, rest)
    | '[' :: rest =>
      match skipSpace rest with
      | ']' :: rest => some (.array [], rest)
      | rest => (takeItems? fuel rest).map fun (items, rest) => (.array items, rest)
    | '{' :: rest =>
      match skipSpace rest with
      | '}' :: rest => some (.object [], rest)
      | rest => (takeMembers? fuel rest).map fun (members, rest) => (.object members, rest)
    | rest => (takeNumber? rest).map fun (n, rest) => (.number n, rest)

/-- One or more items and the closing bracket. -/
def takeItems? : (fuel : Nat) → List Char → Option (List Json × List Char)
  | 0, _ => none
  | fuel + 1, cs =>
    match takeValue? fuel cs with
    | none => none
    | some (item, rest) =>
      match skipSpace rest with
      | ',' :: rest => (takeItems? fuel rest).map fun (items, rest) => (item :: items, rest)
      | ']' :: rest => some ([item], rest)
      | _ => none

/-- One or more members and the closing brace. -/
def takeMembers? : (fuel : Nat) → List Char → Option (List (JsonText × Json) × List Char)
  | 0, _ => none
  | fuel + 1, cs =>
    match skipSpace cs with
    | '"' :: rest =>
      match takeString? rest with
      | none => none
      | some (key, rest) =>
        match skipSpace rest with
        | ':' :: rest =>
          match takeValue? fuel rest with
          | none => none
          | some (value, rest) =>
            match skipSpace rest with
            | ',' :: rest =>
              (takeMembers? fuel rest).map fun (members, rest) => ((key, value) :: members, rest)
            | '}' :: rest => some ([(key, value)], rest)
            | _ => none
        | _ => none
    | _ => none

end

/-- Read a text that holds one value and nothing else but white space. -/
def parse? (s : String) : Option Json :=
  let cs := s.toList
  match takeValue? (2 * cs.length + 2) cs with
  | some (j, rest) => if skipSpace rest = [] then some j else none
  | none => none

end UsageBilling.Json
