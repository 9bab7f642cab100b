import UsageBilling.Json.Basic

/-!
# Writing JSON

`Json.render` writes a value without white space.  Only quotes, backslashes and control characters
are escaped; a string that is no text is written as an escaped half of a surrogate pair.
-/

namespace UsageBilling.Json

/-- A character of a string literal. -/
def escape (c : Char) : List Char :=
  if c = '"' then ['\\', '"']
  else if c = '\\' then ['\\', '\\']
  else if c = '\x08' then ['\\', 'b']
  else if c = '\x0c' then ['\\', 'f']
  else if c = '\n' then ['\\', 'n']
  else if c = '\r' then ['\\', 'r']
  else if c = '\t' then ['\\', 't']
  else if c.toNat < 0x20 then '\\' :: 'u' :: Text.hex 4 c.toNat
  else [c]

/-- A string literal. -/
def renderText : JsonText → List Char
  | some s => '"' :: s.toList.flatMap escape ++ ['"']
  | none => ['"', '\\', 'u', 'd', '8', '0', '0', '"']

/-- A number literal. -/
def renderNumber (n : JsonNumber) : List Char :=
  (if n.negative then ['-'] else []) ++ Text.decimal n.whole ++
    (if n.fraction = [] then [] else '.' :: n.fraction) ++
    match n.exponent with
    | none => []
    | some e => 'e' :: (if e < 0 then ['-'] else []) ++ Text.decimal e.natAbs

mutual

/-- The characters of a value. -/
def chars : Json → List Char
  | .null => ['n', 'u', 'l', 'l']
  | .bool true => ['t', 'r', 'u', 'e']
  | .bool false => ['f', 'a', 'l', 's', 'e']
  | .number n => renderNumber n
  | .string s => renderText s
  | .array items => '[' :: itemChars items
  | .object members => '{' :: memberChars members

/-- Items and the closing bracket. -/
def itemChars : List Json → List Char
  | [] => [']']
  | [j] => j.chars ++ [']']
  | j :: next :: rest => j.chars ++ ',' :: itemChars (next :: rest)

/-- Members and the closing brace. -/
def memberChars : List (JsonText × Json) → List Char
  | [] => ['}']
  | [(key, j)] => renderText key ++ ':' :: j.chars ++ ['}']
  | (key, j) :: next :: rest => renderText key ++ ':' :: j.chars ++ ',' :: memberChars (next :: rest)

end

/-- The value as text. -/
def render (j : Json) : String := String.ofList j.chars

end UsageBilling.Json
