import UsageBilling.Number.Power
import UsageBilling.Text.Digits

/-!
# Identifiers of records

A `Uuid` is a number of 128 bits.  `Uuid.render` writes it in lower case with hyphens,
`Uuid.ofText?` also reads it without hyphens, in braces or as a `urn`, in any case; what was written
is read back (`Uuid.ofText?_render`).
-/

namespace UsageBilling

/-- An identifier of 128 bits. -/
structure Uuid where
  value : Fin (twoPow 128)
  deriving DecidableEq

namespace Uuid

/-- The identifier that 32 hexadecimal digits name. -/
def ofDigits? (digits : List Char) : Option Uuid :=
  if digits.length = 32 then
    (Text.readHex? digits).bind fun n => if h : n < twoPow 128 then some ⟨n, h⟩ else none
  else none

/-- Groups of 8, 4, 4, 4 and 12 digits with hyphens between them. -/
def ofHyphenated? (cs : List Char) : Option Uuid :=
  if cs.length = 36 ∧ [8, 13, 18, 23].all (fun i => cs[i]? = some '-') then
    ofDigits? ((cs.take 8) ++ (cs.drop 9).take 4 ++ (cs.drop 14).take 4 ++ (cs.drop 19).take 4 ++
      cs.drop 24)
  else none

/-- What an identifier written as a `urn` starts with, in any case. -/
def urnStart : List Char := ['u', 'r', 'n', ':', 'u', 'u', 'i', 'd', ':']

/-- Read an identifier in any of its forms. -/
def ofText? (s : String) : Option Uuid :=
  let cs := s.toList
  if (cs.take urnStart.length).map Char.toLower = urnStart then
    ofHyphenated? (cs.drop urnStart.length)
  else
    match cs with
    | '{' :: rest => if rest.getLast? = some '}' then ofHyphenated? rest.dropLast else none
    | cs => if cs.length = 32 then ofDigits? cs else ofHyphenated? cs

/-- The lower-case form with hyphens. -/
def render (u : Uuid) : String :=
  let digits := Text.hex 32 u.value
  String.ofList (digits.take 8 ++ '-' :: (digits.drop 8).take 4 ++ '-' :: (digits.drop 12).take 4 ++
    '-' :: (digits.drop 16).take 4 ++ '-' :: digits.drop 20)

/-! ### Reading what was written -/

theorem ofHyphenated?_groups {a b c d e : List Char} (ha : a.length = 8) (hb : b.length = 4)
    (hc : c.length = 4) (hd : d.length = 4) (he : e.length = 12) :
    ofHyphenated? (a ++ '-' :: b ++ '-' :: c ++ '-' :: d ++ '-' :: e) =
      ofDigits? (a ++ b ++ c ++ d ++ e) := by
  unfold ofHyphenated?
  rw [if_pos]
  · simp [List.drop_append, List.drop_eq_nil_of_le, ha, hb, hc, hd]
  · simp [List.getElem?_append, ha, hb, hc, hd, he]

/-- A text of this length is in groups, unless it starts like a `urn` or with a brace. -/
theorem ofText?_of_length {cs : List Char} (hlength : cs.length = 36)
    (hstart : ∀ c ∈ cs.head?, c.toLower ≠ 'u' ∧ c ≠ '{') :
    ofText? (String.ofList cs) = ofHyphenated? cs := by
  have hurn : (cs.take urnStart.length).map Char.toLower ≠ urnStart := by
    cases cs with
    | nil => cases hlength
    | cons c cs => exact fun heq => (hstart c rfl).1 (List.cons.inj heq).1
  rw [ofText?, String.toList_ofList, if_neg hurn]
  split
  · exact absurd rfl (hstart '{' rfl).2
  · rw [hlength, if_neg (by decide)]

theorem start_of_mem_hex {width n : Nat} {c : Char} (h : c ∈ Text.hex width n) :
    c.toLower ≠ 'u' ∧ c ≠ '{' := by
  obtain ⟨m, hm, rfl⟩ := Text.exists_hexChar_of_mem_hex h
  have hstart : ∀ m : Fin 16, (Text.hexChar m).toLower ≠ 'u' ∧ Text.hexChar m ≠ '{' := by decide
  exact hstart ⟨m, hm⟩

/-- **An identifier is read back from its text.** -/
theorem ofText?_render (u : Uuid) : ofText? u.render = some u := by
  have hlength := Text.length_hex 32 u.value
  have hread : Text.readHex? (Text.hex 32 u.value) = some u.value.val :=
    Text.readHex?_hex u.value.isLt
  have hstart : ∀ c ∈ Text.hex 32 u.value, c.toLower ≠ 'u' ∧ c ≠ '{' := fun _ =>
    start_of_mem_hex
  rw [render]
  generalize Text.hex 32 u.value = digits at hlength hread hstart
  obtain ⟨c, cs, rfl⟩ := List.exists_cons_of_length_eq_add_one hlength
  simp only [List.length_cons, Nat.reduceEqDiff] at hlength
  rw [ofText?_of_length (by simp [hlength]) (by simpa using hstart c List.mem_cons_self),
    ofHyphenated?_groups (by simp [hlength]) (by simp [hlength]) (by simp [hlength])
      (by simp [hlength]) (by simp [hlength])]
  -- the groups are the digits again
  rw [← List.take_add, ← List.take_add, ← List.take_add, List.take_append_drop, ofDigits?,
    if_pos (by simp [hlength]), hread, Option.bind_some, dif_pos u.value.isLt]

end Uuid

end UsageBilling
