import UsageBilling.Json.Parser
import UsageBilling.Json.Printer

/-!
# Reading what was written

A JSON text is read back to the value it was written from: `Json.parse?_render`.  Every part of a
text is read off the front of what follows it, as long as that does not go on with the part.

* `Json.takeString?_text` : a string ends at its closing quote.
* `Json.takeNumber?_renderNumber` : a number ends where nothing continues a number.
* `Json.takeValue?_chars` : a value, with as much fuel as it has characters.
-/

namespace UsageBilling.Json

variable {fuel : Nat} {rest : List Char}

/-! ### Strings -/

/-- The characters that are escaped by a letter or themselves. -/
def lettered : List Char := ['"', '\\', '\x08', '\x0c', '\n', '\r', '\t']

/-- A character is written as a letter, as a number, or as itself. -/
theorem escape_cases (c : Char) :
    (∃ letter, escape c = ['\\', letter] ∧ letterEscape? letter = some c) ∨
      (c.toNat < 0x20 ∧ escape c = '\\' :: 'u' :: Text.hex 4 c.toNat) ∨
      (escape c = [c] ∧ c ≠ '"' ∧ c ≠ '\\' ∧ ¬ c.toNat < 0x20) := by
  by_cases hletter : c ∈ lettered
  · simp only [lettered, List.mem_cons, List.not_mem_nil, or_false] at hletter
    rcases hletter with rfl | rfl | rfl | rfl | rfl | rfl | rfl <;> exact .inl ⟨_, rfl, rfl⟩
  · simp only [lettered, List.mem_cons, List.not_mem_nil, or_false, not_or] at hletter
    obtain ⟨hquote, hslash, h₁, h₂, h₃, h₄, h₅⟩ := hletter
    simp only [escape, if_neg hquote, if_neg hslash, if_neg h₁, if_neg h₂, if_neg h₃, if_neg h₄,
      if_neg h₅]
    by_cases hcontrol : c.toNat < 0x20
    · exact .inr (.inl ⟨hcontrol, if_pos hcontrol⟩)
    · exact .inr (.inr ⟨if_neg hcontrol, hquote, hslash, hcontrol⟩)

theorem scanString_letter {letter c : Char} (h : letterEscape? letter = some c) (rest : List Char) :
    scanString ('\\' :: letter :: rest) =
      (scanString rest).map fun (units, rest) => (.char c :: units, rest) := by
  have hu : letter ≠ 'u' := by
    rintro rfl
    cases h
  rw [scanString]
  · rw [h]
    cases scanString rest <;> rfl
  · rintro _ _ _ _ _ rfl
    exact absurd rfl hu

theorem scanString_control {c : Char} (h : c.toNat < 0x20) (rest : List Char) :
    scanString ('\\' :: 'u' :: Text.hex 4 c.toNat ++ rest) =
      (scanString rest).map fun (units, rest) => (.char c :: units, rest) := by
  have hunit : unitOfEscape c.toNat = .char c := by
    have hlow : ¬ 0xd800 ≤ c.toNat := by omega
    simp [unitOfEscape, hlow]
  have hread : Text.readHex? (Text.hex 4 c.toNat) = some c.toNat :=
    Text.readHex?_hex (Nat.lt_trans h (by decide))
  simp only [Text.hex, List.cons_append, List.nil_append] at hread ⊢
  rw [scanString, hread]
  cases scanString rest with
  | none => rfl
  | some scanned => simp only [hunit, Option.map_some]

/-- **An escaped character is read as itself.** -/
theorem scanString_escape (c : Char) (rest : List Char) : scanString (escape c ++ rest) =
    (scanString rest).map fun (units, rest) => (.char c :: units, rest) := by
  rcases escape_cases c with ⟨letter, heq, hletter⟩ | ⟨hcontrol, heq⟩ | ⟨heq, hquote, hslash, hplain⟩
  · rw [heq]
    exact scanString_letter hletter rest
  · rw [heq]
    exact scanString_control hcontrol rest
  · rw [heq, List.singleton_append, scanString]
    · rw [if_neg hplain]
    · exact hquote
    · exact fun _ _ _ _ _ h _ => hslash h
    · exact fun _ _ h _ => hslash h

theorem scanString_flatMap (cs rest : List Char) :
    scanString (cs.flatMap escape ++ '"' :: rest) = some (cs.map .char, rest) := by
  induction cs with
  | nil => rfl
  | cons c cs ih =>
    rw [List.flatMap_cons, List.append_assoc, scanString_escape, ih]
    rfl

theorem textOfUnits_map (cs : List Char) : textOfUnits (cs.map .char) = some cs := by
  induction cs with
  | nil => rfl
  | cons c cs ih => rw [List.map_cons, textOfUnits, ih, Option.map_some]

/-- **A string is read back**, up to its closing quote. -/
theorem exists_takeString? (s : JsonText) : ∃ body, renderText s = '"' :: body ∧
    ∀ rest, takeString? (body ++ rest) = some (s, rest) := by
  cases s with
  | none => exact ⟨_, rfl, fun rest => rfl⟩
  | some s =>
    refine ⟨s.toList.flatMap escape ++ ['"'], rfl, fun rest => ?_⟩
    rw [List.append_assoc, List.singleton_append, takeString?, scanString_flatMap]
    simp [textOfUnits_map]

/-! ### Numbers -/

theorem isSpace_of_isDigit {c : Char} (h : Text.isDigit c = true) : isSpace c = false := by
  simp only [isSpace, Bool.or_eq_false_iff, decide_eq_false_iff_not]
  refine ⟨⟨⟨?_, ?_⟩, ?_⟩, ?_⟩ <;> rintro rfl <;> exact absurd h (by decide)

/-- What follows a number does not go on with it. -/
def EndsNumber (rest : List Char) : Prop :=
  ∀ c ∈ rest.head?, Text.isDigit c = false ∧ c ≠ '.' ∧ c ≠ 'e' ∧ c ≠ 'E'

/-- The digits behind the point are digits, as in every literal. -/
def IsLiteral (n : JsonNumber) : Prop :=
  ∀ c ∈ n.fraction, Text.isDigit c = true

/-- A number starts with a digit, and only zero with the digit zero. -/
theorem exists_decimal_eq (n : Nat) : ∃ d ds, Text.decimal n = d :: ds ∧ Text.isDigit d = true ∧
    (d = '0' → n = 0) := by
  fun_induction Text.decimal n with
  | case1 n hn =>
    have hzero : ∀ m : Fin 10, Text.digitChar m = '0' → m.val = 0 := by decide
    exact ⟨_, [], rfl, Text.isDigit_digitChar hn, hzero ⟨n, hn⟩⟩
  | case2 n hn ih =>
    obtain ⟨d, ds, heq, hd, hzero⟩ := ih
    refine ⟨d, ds ++ [Text.digitChar (n % 10)], by rw [heq, List.cons_append], hd, fun h => ?_⟩
    have := hzero h
    omega

theorem spanDigits_decimal (n : Nat) (h : ∀ c ∈ rest.head?, Text.isDigit c = false) :
    Text.spanDigits (Text.decimal n ++ rest) = (Text.decimal n, rest) :=
  Text.spanDigits_append (fun _ hc => Text.isDigit_of_mem_decimal hc) h

theorem takeWhole?_decimal (n : Nat) (h : ∀ c ∈ rest.head?, Text.isDigit c = false) :
    takeWhole? (Text.decimal n ++ rest) = some (n, rest) := by
  obtain ⟨d, ds, heq, -, hzero⟩ := exists_decimal_eq n
  by_cases hd : d = '0'
  · obtain rfl := hzero hd
    have hdecimal : Text.decimal 0 = ['0'] := by
      rw [Text.decimal]
      rfl
    rw [hdecimal]
    rfl
  · rw [heq, List.cons_append, takeWhole?]
    · rw [← List.cons_append, ← heq, spanDigits_decimal n h]
      simp [Text.decimal_ne_nil]
    · rintro _ ⟨⟩
      exact hd rfl

/-- The digits behind the point as they are written. -/
def fractionChars (fraction : List Char) : List Char :=
  if fraction = [] then [] else '.' :: fraction

theorem takeFraction?_append {fraction : List Char} (hdigits : ∀ c ∈ fraction, Text.isDigit c = true)
    (h : ∀ c ∈ rest.head?, Text.isDigit c = false ∧ c ≠ '.') :
    takeFraction? (fractionChars fraction ++ rest) = some (fraction, rest) := by
  unfold fractionChars
  split
  · next hnil =>
    subst hnil
    rw [List.nil_append, takeFraction?]
    rintro tail rfl
    exact (h '.' rfl).2 rfl
  · next hne =>
    rw [List.cons_append, takeFraction?, Text.spanDigits_append hdigits fun c hc => (h c hc).1]
    simp [hne]

/-- The exponent of a number as it is written. -/
def exponentChars : Option Int → List Char
  | none => []
  | some e => 'e' :: (if e < 0 then ['-'] else []) ++ Text.decimal e.natAbs

theorem takeExponent?_append (exponent : Option Int) (h : EndsNumber rest) :
    takeExponent? (exponentChars exponent ++ rest) = some (exponent, rest) := by
  cases exponent with
  | none =>
    rw [exponentChars, List.nil_append, takeExponent?]
    · rintro tail rfl
      exact (h 'e' rfl).2.2.1 rfl
    · rintro tail rfl
      exact (h 'E' rfl).2.2.2 rfl
  | some e =>
    have hspan := spanDigits_decimal e.natAbs fun c hc => (h c hc).1
    by_cases he : e < 0
    · have hvalue : -1 * (e.natAbs : Int) = e := by omega
      simp only [exponentChars, if_pos he, List.cons_append, List.nil_append, takeExponent?, hspan,
        Text.decimal_ne_nil, Text.value_decimal, if_false, hvalue]
    · -- no sign is written, and none is read in front of a digit
      have hsign (c : Char) (tail : List Char) (hc : Text.isDigit c = false) :
          Text.decimal e.natAbs ++ rest ≠ c :: tail := by
        obtain ⟨d, ds, heq, hd, -⟩ := exists_decimal_eq e.natAbs
        rw [heq, List.cons_append]
        rintro ⟨⟩
        rw [hc] at hd
        cases hd
      simp only [exponentChars, if_neg he, List.cons_append, List.nil_append, takeExponent?]
      split
      · next hminus => exact absurd hminus (hsign _ _ (by decide))
      · next hplus => exact absurd hplus (hsign _ _ (by decide))
      · simp only [hspan, Text.decimal_ne_nil, Text.value_decimal, if_false, Int.one_mul]
        rw [Int.natAbs_of_nonneg (by omega)]

/-- Behind the sign a number has its digits, a fraction and an exponent. -/
theorem takeNumber?_sign (negative : Bool) {cs : List Char} (h : ∀ tail, cs ≠ '-' :: tail) :
    takeNumber? ((if negative then ['-'] else []) ++ cs) =
      (takeWhole? cs).bind fun (whole, cs) => (takeFraction? cs).bind fun (fraction, cs) =>
        (takeExponent? cs).bind fun (exponent, cs) =>
          some (⟨negative, whole, fraction, exponent⟩, cs) := by
  cases negative with
  | true => rfl
  | false =>
    simp only [takeNumber?]
    split
    · next tail hminus => exact absurd hminus (h tail)
    · rfl

theorem renderNumber_eq (n : JsonNumber) : renderNumber n =
    (if n.negative then ['-'] else []) ++ (Text.decimal n.whole ++
      (fractionChars n.fraction ++ exponentChars n.exponent)) := by
  obtain ⟨negative, whole, fraction, exponent⟩ := n
  cases exponent <;> simp [renderNumber, fractionChars, exponentChars]

/-- **A number is read back**, up to what does not go on with it. -/
theorem takeNumber?_renderNumber {n : JsonNumber} (hn : IsLiteral n) (h : EndsNumber rest) :
    takeNumber? (renderNumber n ++ rest) = some (n, rest) := by
  have hexponent : ∀ c ∈ (exponentChars n.exponent ++ rest).head?,
      Text.isDigit c = false ∧ c ≠ '.' := by
    cases n.exponent with
    | none => exact fun c hc => ⟨(h c hc).1, (h c hc).2.1⟩
    | some e =>
      rintro c ⟨⟩
      exact ⟨by decide, by decide⟩
  have hfraction : ∀ c ∈ (fractionChars n.fraction ++ (exponentChars n.exponent ++ rest)).head?,
      Text.isDigit c = false := by
    unfold fractionChars
    split
    · exact fun c hc => (hexponent c hc).1
    · rintro c ⟨⟩
      decide
  have hminus : ∀ tail, Text.decimal n.whole ++
      (fractionChars n.fraction ++ (exponentChars n.exponent ++ rest)) ≠ '-' :: tail := by
    obtain ⟨d, ds, heq, hd, -⟩ := exists_decimal_eq n.whole
    rw [heq]
    rintro tail ⟨⟩
    cases hd
  simp only [renderNumber_eq, List.append_assoc, takeNumber?_sign n.negative hminus,
    takeWhole?_decimal n.whole hfraction, takeFraction?_append hn hexponent,
    takeExponent?_append n.exponent h, Option.bind_some]

theorem exists_renderNumber_eq (n : JsonNumber) :
    ∃ c cs, renderNumber n = c :: cs ∧ (c = '-' ∨ Text.isDigit c = true) := by
  obtain ⟨d, ds, heq, hd, -⟩ := exists_decimal_eq n.whole
  rw [renderNumber_eq, heq]
  cases n.negative with
  | true => exact ⟨_, _, rfl, .inl rfl⟩
  | false => exact ⟨_, _, rfl, .inr hd⟩

/-! ### Values -/

mutual

/-- All numbers in a value are literals. -/
def HasLiterals : Json → Prop
  | .number n => IsLiteral n
  | .array items => ItemsHaveLiterals items
  | .object members => MembersHaveLiterals members
  | _ => True

def ItemsHaveLiterals : List Json → Prop
  | [] => True
  | j :: rest => HasLiterals j ∧ ItemsHaveLiterals rest

def MembersHaveLiterals : List (JsonText × Json) → Prop
  | [] => True
  | (_, j) :: rest => HasLiterals j ∧ MembersHaveLiterals rest

end

/-- A value starts with no white space and no closing bracket. -/
theorem exists_chars_eq (j : Json) : ∃ c cs, j.chars = c :: cs ∧ isSpace c = false ∧ c ≠ ']' := by
  cases j with
  | null => exact ⟨_, _, by rw [chars], by decide, by decide⟩
  | bool b => cases b <;> exact ⟨_, _, by rw [chars], by decide, by decide⟩
  | number n =>
    obtain ⟨c, cs, heq, hc⟩ := exists_renderNumber_eq n
    refine ⟨c, cs, by rw [chars, heq], ?_⟩
    rcases hc with rfl | hc
    · exact ⟨by decide, by decide⟩
    · exact ⟨isSpace_of_isDigit hc, by rintro rfl; cases hc⟩
  | string s =>
    obtain ⟨body, hbody, -⟩ := exists_takeString? s
    exact ⟨_, _, by rw [chars, hbody], by decide, by decide⟩
  | array items => exact ⟨_, _, by rw [chars], by decide, by decide⟩
  | object members => exact ⟨_, _, by rw [chars], by decide, by decide⟩

theorem skipSpace_of_head {c : Char} {cs : List Char} (h : isSpace c = false) :
    skipSpace (c :: cs) = c :: cs := by
  simp [skipSpace, h]

theorem skipSpace_chars (j : Json) (rest : List Char) :
    skipSpace (j.chars ++ rest) = j.chars ++ rest := by
  obtain ⟨c, cs, heq, hc, -⟩ := exists_chars_eq j
  rw [heq]
  exact skipSpace_of_head hc

/-- What starts like a number is read as one. -/
theorem takeValue?_of_number {c : Char} {cs : List Char} (h : c = '-' ∨ Text.isDigit c = true) :
    takeValue? (fuel + 1) (c :: cs) =
      (takeNumber? (c :: cs)).map fun (n, rest) => (.number n, rest) := by
  have hspace : isSpace c = false := by
    rcases h with rfl | h
    · decide
    · exact isSpace_of_isDigit h
  rw [takeValue?, skipSpace_of_head hspace]
  split
  case h_7 => rfl
  all_goals
    next heq =>
      cases heq
      exact absurd h (by decide)

theorem takeValue?_string (fuel : Nat) (cs : List Char) : takeValue? (fuel + 1) ('"' :: cs) =
    (takeString? cs).map fun (s, rest) => (.string s, rest) := rfl

theorem takeValue?_array {cs : List Char} (hspace : skipSpace cs = cs)
    (hend : ∀ tail, cs ≠ ']' :: tail) : takeValue? (fuel + 1) ('[' :: cs) =
      (takeItems? fuel cs).map fun (items, rest) => (.array items, rest) := by
  rw [takeValue?, skipSpace_of_head (by decide)]
  simp only [hspace]

theorem takeValue?_object {cs : List Char} (hspace : skipSpace cs = cs)
    (hend : ∀ tail, cs ≠ '}' :: tail) : takeValue? (fuel + 1) ('{' :: cs) =
      (takeMembers? fuel cs).map fun (members, rest) => (.object members, rest) := by
  rw [takeValue?, skipSpace_of_head (by decide)]
  simp only [hspace]

theorem takeItems?_last {cs : List Char} {j : Json}
    (h : takeValue? fuel cs = some (j, ']' :: rest)) :
    takeItems? (fuel + 1) cs = some ([j], rest) := by
  rw [takeItems?, h]
  rfl

theorem takeItems?_more {cs : List Char} {j : Json}
    (h : takeValue? fuel cs = some (j, ',' :: rest)) : takeItems? (fuel + 1) cs =
      (takeItems? fuel rest).map fun (items, rest) => (j :: items, rest) := by
  rw [takeItems?, h]
  rfl

theorem takeMembers?_last {cs behind : List Char} {key : JsonText} {j : Json}
    (hkey : takeString? cs = some (key, ':' :: behind))
    (h : takeValue? fuel behind = some (j, '}' :: rest)) :
    takeMembers? (fuel + 1) ('"' :: cs) = some ([(key, j)], rest) := by
  rw [takeMembers?, skipSpace_of_head (by decide)]
  simp only [hkey]
  rw [skipSpace_of_head (by decide)]
  simp only [h]
  rfl

theorem takeMembers?_more {cs behind : List Char} {key : JsonText} {j : Json}
    (hkey : takeString? cs = some (key, ':' :: behind))
    (h : takeValue? fuel behind = some (j, ',' :: rest)) : takeMembers? (fuel + 1) ('"' :: cs) =
      (takeMembers? fuel rest).map fun (members, rest) => ((key, j) :: members, rest) := by
  rw [takeMembers?, skipSpace_of_head (by decide)]
  simp only [hkey]
  rw [skipSpace_of_head (by decide)]
  simp only [h]
  rfl

theorem endsNumber_cons {c : Char} (h : Text.isDigit c = false ∧ c ≠ '.' ∧ c ≠ 'e' ∧ c ≠ 'E')
    (rest : List Char) : EndsNumber (c :: rest) := by
  rintro _ ⟨⟩
  exact h

theorem chars_length_pos (j : Json) : 0 < j.chars.length := by
  obtain ⟨c, cs, heq, -⟩ := exists_chars_eq j
  rw [heq]
  exact Nat.succ_pos _

/-- A list starts with its first item. -/
theorem exists_itemChars_eq (j : Json) (items : List Json) :
    ∃ behind, itemChars (j :: items) = j.chars ++ behind := by
  cases items with
  | nil => exact ⟨_, by rw [itemChars]⟩
  | cons next items => exact ⟨_, by rw [itemChars]⟩

/-- The members start with the quote of the first key. -/
theorem exists_memberChars_eq (member : JsonText × Json) (members : List (JsonText × Json)) :
    ∃ body, memberChars (member :: members) = '"' :: body := by
  obtain ⟨key, j⟩ := member
  obtain ⟨body, hbody, -⟩ := exists_takeString? key
  cases members with
  | nil => exact ⟨_, by rw [memberChars, hbody, List.cons_append, List.cons_append]⟩
  | cons next members => exact ⟨_, by rw [memberChars, hbody, List.cons_append, List.cons_append]⟩

mutual

/-- **A value is read back** with as much fuel as it has characters. -/
theorem takeValue?_chars (j : Json) (fuel : Nat) (rest : List Char) (hj : HasLiterals j)
    (hfuel : j.chars.length ≤ fuel) (h : EndsNumber rest) :
    takeValue? fuel (j.chars ++ rest) = some (j, rest) := by
  match fuel, j with
  | 0, j =>
    have hpos := chars_length_pos j
    omega
  | fuel + 1, .null => rfl
  | fuel + 1, .bool true => rfl
  | fuel + 1, .bool false => rfl
  | fuel + 1, .number n =>
    obtain ⟨c, cs, heq, hc⟩ := exists_renderNumber_eq n
    have hread := takeNumber?_renderNumber hj h
    rw [chars, heq, List.cons_append, takeValue?_of_number hc, ← List.cons_append, ← heq, hread,
      Option.map_some]
  | fuel + 1, .string s =>
    obtain ⟨body, hbody, hread⟩ := exists_takeString? s
    rw [chars, hbody, List.cons_append, takeValue?_string, hread, Option.map_some]
  | fuel + 1, .array [] => rfl
  | fuel + 1, .array (j :: items) =>
    have hitems := takeItems?_itemChars j items fuel rest hj (by simpa [chars] using hfuel)
    obtain ⟨behind, hbehind⟩ := exists_itemChars_eq j items
    obtain ⟨c, cs, heq, hc, hbracket⟩ := exists_chars_eq j
    rw [chars, List.cons_append, takeValue?_array, hitems, Option.map_some]
    · rw [hbehind, List.append_assoc, skipSpace_chars]
    · rw [hbehind, heq]
      rintro tail ⟨⟩
      exact hbracket rfl
  | fuel + 1, .object [] => rfl
  | fuel + 1, .object (member :: members) =>
    have hmembers := takeMembers?_memberChars member members fuel rest hj
      (by simpa [chars] using hfuel)
    obtain ⟨body, hbody⟩ := exists_memberChars_eq member members
    rw [chars, List.cons_append, takeValue?_object, hmembers, Option.map_some]
    · rw [hbody]
      exact skipSpace_of_head (by decide)
    · rw [hbody]
      rintro tail ⟨⟩

theorem takeItems?_itemChars (j : Json) (items : List Json) (fuel : Nat) (rest : List Char)
    (hitems : ItemsHaveLiterals (j :: items)) (hfuel : (itemChars (j :: items)).length ≤ fuel) :
    takeItems? fuel (itemChars (j :: items) ++ rest) = some (j :: items, rest) := by
  match fuel, items with
  | 0, items =>
    obtain ⟨behind, hbehind⟩ := exists_itemChars_eq j items
    have hpos := chars_length_pos j
    rw [hbehind, List.length_append] at hfuel
    omega
  | fuel + 1, [] =>
    rw [itemChars, List.length_append, List.length_singleton] at hfuel
    have hj := takeValue?_chars j fuel (']' :: rest) hitems.1 (by omega)
      (endsNumber_cons (by decide) rest)
    rw [itemChars, List.append_assoc]
    exact takeItems?_last hj
  | fuel + 1, next :: items =>
    rw [itemChars, List.length_append, List.length_cons] at hfuel
    have hj := takeValue?_chars j fuel (',' :: (itemChars (next :: items) ++ rest)) hitems.1
      (by omega) (endsNumber_cons (by decide) _)
    have hrest := takeItems?_itemChars next items fuel rest hitems.2 (by omega)
    rw [itemChars, List.append_assoc, List.cons_append, takeItems?_more hj, hrest, Option.map_some]

theorem takeMembers?_memberChars (member : JsonText × Json) (members : List (JsonText × Json))
    (fuel : Nat) (rest : List Char) (hmembers : MembersHaveLiterals (member :: members))
    (hfuel : (memberChars (member :: members)).length ≤ fuel) :
    takeMembers? fuel (memberChars (member :: members) ++ rest) =
      some (member :: members, rest) := by
  match fuel, member, members with
  | 0, member, members =>
    obtain ⟨body, hbody⟩ := exists_memberChars_eq member members
    rw [hbody, List.length_cons] at hfuel
    omega
  | fuel + 1, (key, j), [] =>
    obtain ⟨body, hbody, hread⟩ := exists_takeString? key
    rw [memberChars, hbody] at hfuel ⊢
    simp only [List.length_append, List.length_cons, List.length_nil] at hfuel
    have hj := takeValue?_chars j fuel ('}' :: rest) hmembers.1 (by omega)
      (endsNumber_cons (by decide) rest)
    simp only [List.append_assoc, List.cons_append, List.nil_append]
    exact takeMembers?_last (hread _) hj
  | fuel + 1, (key, j), next :: members =>
    obtain ⟨body, hbody, hread⟩ := exists_takeString? key
    rw [memberChars, hbody] at hfuel ⊢
    simp only [List.length_append, List.length_cons] at hfuel
    have hj := takeValue?_chars j fuel (',' :: (memberChars (next :: members) ++ rest)) hmembers.1
      (by omega) (endsNumber_cons (by decide) _)
    have hrest := takeMembers?_memberChars next members fuel rest hmembers.2 (by omega)
    simp only [List.append_assoc, List.cons_append]
    rw [takeMembers?_more (hread _) hj, hrest, Option.map_some]

end

/-- **A value is read back from its text.** -/
theorem parse?_render {j : Json} (h : HasLiterals j) : parse? j.render = some j := by
  have hread := takeValue?_chars j (2 * j.chars.length + 2) [] h (by omega) nofun
  rw [List.append_nil] at hread
  simp [parse?, render, hread, skipSpace]

end UsageBilling.Json
