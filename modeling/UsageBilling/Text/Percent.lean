import UsageBilling.Text.Digits

/-!
# Percent-encoded text

In the parts of an address a character may stand as the bytes of its UTF-8 form, each as a percent
sign and two hexadecimal digits.
-/

namespace UsageBilling.Text

/-- A byte as a percent sign and two digits in upper case. -/
def percentByte (n : Nat) : List Char := '%' :: (hex 2 n).map Char.toUpper

/-- A character as its bytes. -/
def percentChar (c : Char) : List Char :=
  c.toString.toUTF8.toList.flatMap fun b => percentByte b.toNat

/-- Each character that is not to stand for itself becomes its bytes. -/
def percentEncode (standsForItself : Char → Bool) (cs : List Char) : List Char :=
  cs.flatMap fun c => if standsForItself c then [c] else percentChar c

/-- The bytes of a text in which some are encoded. -/
def percentBytes : List Char → List UInt8
  | [] => []
  | '%' :: a :: b :: rest =>
    match hexValue? a, hexValue? b with
    | some x, some y => UInt8.ofNat (16 * x + y) :: percentBytes rest
    | _, _ => 0x25 :: percentBytes (a :: b :: rest)
  | c :: rest => c.toString.toUTF8.toList ++ percentBytes rest

/-- The character that the first `n` bytes make up. -/
def charOfBytes? (bytes : List UInt8) (n : Nat) : Option Char :=
  match (String.fromUTF8? ⟨(bytes.take n).toArray⟩).map String.toList with
  | some [c] => some c
  | _ => none

/-- The characters of bytes in UTF-8.  A byte that belongs to no character becomes U+FFFD. -/
def charsOfBytes : List UInt8 → List Char
  | [] => []
  | a :: rest =>
    match [1, 2, 3, 4].find? fun n => (charOfBytes? (a :: rest) n).isSome with
    | some n => ((charOfBytes? (a :: rest) n).getD '\ufffd') :: charsOfBytes (rest.drop (n - 1))
    | none => '\ufffd' :: charsOfBytes rest
termination_by bytes => bytes.length
decreasing_by all_goals simp only [List.length_cons, List.length_drop]; omega

/-- The text that percent signs and bytes stand for. -/
def percentDecode (cs : List Char) : List Char := charsOfBytes (percentBytes cs)

end UsageBilling.Text
