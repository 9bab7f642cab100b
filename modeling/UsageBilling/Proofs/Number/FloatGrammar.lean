import UsageBilling.Number.FloatText

/-!
# The grammar of floating-point numbers

Which texts are read as a number: an optional sign and then a name such as `inf`, or digits with a
point anywhere among them and an exponent behind.

* `FloatText.IsFloatText` : the grammar.
* `FloatText.exists_parse_iff` : the texts that are read are those of the grammar.
* `FloatText.eq_of_parse_eq_error` : what the others are told of with.
-/

namespace UsageBilling.FloatText

open Text

variable {cs : List Char} {s : String}

/-! ### The grammar -/

def IsDigits (cs : List Char) : Prop := ∀ c ∈ cs, isDigit c = true

/-- A sign, or none. -/
def IsSign (cs : List Char) : Prop := cs = [] ∨ cs = ['+'] ∨ cs = ['-']

/-- The name of a number, in any case. -/
def IsName (cs : List Char) : Prop :=
  String.ofList (cs.map Char.toLower) ∈ ["inf", "infinity", "nan"]

/-- An exponent, or none. -/
def IsExponent (cs : List Char) : Prop :=
  cs = [] ∨ ∃ letter sign digits, (letter = 'e' ∨ letter = 'E') ∧ IsSign sign ∧ IsDigits digits ∧
    digits ≠ [] ∧ cs = letter :: (sign ++ digits)

/-- Digits, at least one, with a point in front, between, behind or left out, and an exponent. -/
def IsDecimal (cs : List Char) : Prop :=
  ∃ whole point fraction exponent, IsDigits whole ∧ IsDigits fraction ∧ whole ++ fraction ≠ [] ∧
    (point = ['.'] ∨ (point = [] ∧ fraction = [])) ∧ IsExponent exponent ∧
    cs = whole ++ (point ++ (fraction ++ exponent))

/-- A number in text. -/
def IsFloatText (s : String) : Prop :=
  ∃ sign body, IsSign sign ∧ (IsName body ∨ IsDecimal body) ∧ s.toList = sign ++ body

/-! ### Signs -/

theorem exists_takeSign (cs : List Char) : ∃ sign, IsSign sign ∧ cs = sign ++ (takeSign cs).2 := by
  unfold takeSign
  split
  · exact ⟨['-'], .inr (.inr rfl), rfl⟩
  · exact ⟨['+'], .inr (.inl rfl), rfl⟩
  · exact ⟨[], .inl rfl, rfl⟩

/-- What does not start with a sign itself is found behind one. -/
theorem takeSign_append {sign body : List Char} (hsign : IsSign sign)
    (hbody : ∀ c ∈ body.head?, c ≠ '+' ∧ c ≠ '-') : (takeSign (sign ++ body)).2 = body := by
  rcases hsign with rfl | rfl | rfl
  · cases body with
    | nil => rfl
    | cons c body =>
      obtain ⟨hplus, hminus⟩ := hbody c rfl
      unfold takeSign
      split
      · next h => exact absurd (List.cons.inj h).1 hminus
      · next h => exact absurd (List.cons.inj h).1 hplus
      · rfl
  · rfl
  · rfl

/-! ### Exponents -/

theorem isSome_exponentOf? (letter : Char) (rest : List Char) :
    (exponentOf? (letter :: rest)).isSome ↔ (letter = 'e' ∨ letter = 'E') ∧
      (takeSign rest).2 ≠ [] ∧ IsDigits (takeSign rest).2 := by
  unfold exponentOf? takeSign IsDigits
  by_cases hletter : letter = 'e' ∨ letter = 'E'
  · simp only [hletter, Bool.or_eq_true, decide_eq_true_eq, if_true, true_and]
    split <;> simp
  · simp [hletter]

theorem exists_exponentOf?_iff : (∃ e, exponentOf? cs = some e) ↔ IsExponent cs := by
  rw [← Option.isSome_iff_exists]
  cases cs with
  | nil => exact ⟨fun _ => .inl rfl, fun _ => rfl⟩
  | cons letter rest =>
    rw [isSome_exponentOf?]
    constructor
    · rintro ⟨hletter, hne, hdigits⟩
      obtain ⟨sign, hsign, hrest⟩ := exists_takeSign rest
      exact .inr ⟨letter, sign, _, hletter, hsign, hdigits, hne, by rw [← hrest]⟩
    · rintro (h | ⟨letter', sign, digits, hletter, hsign, hdigits, hne, h⟩)
      · cases h
      · obtain ⟨rfl, rfl⟩ := List.cons.inj h
        have hbody : ∀ c ∈ digits.head?, c ≠ '+' ∧ c ≠ '-' := by
          intro c hc
          have hdigit := hdigits c (List.mem_of_mem_head? hc)
          constructor <;> rintro rfl <;> cases hdigit
        rw [takeSign_append hsign hbody]
        exact ⟨hletter, hne, hdigits⟩

/-! ### Decimals -/

/-- An exponent does not go on with what stands in front of it. -/
theorem head_of_isExponent (h : IsExponent cs) {c : Char} (hc : c ∈ cs.head?) :
    isDigit c = false ∧ c ≠ '.' := by
  rcases h with rfl | ⟨letter, sign, digits, hletter, -, -, -, rfl⟩
  · cases hc
  · obtain rfl : letter = c := by simpa using hc
    rcases hletter with rfl | rfl <;> decide

/-- The digits behind a point at the front, none without a point, and the rest. -/
def spanFraction : List Char → List Char × List Char
  | '.' :: rest => spanDigits rest
  | rest => ([], rest)

theorem isSome_magnitudeOf? {whole rest fraction tail : List Char}
    (hwhole : spanDigits cs = (whole, rest)) (hfraction : spanFraction rest = (fraction, tail)) :
    (magnitudeOf? cs).isSome ↔ (exponentOf? tail).isSome ∧ whole ++ fraction ≠ [] := by
  have heq : magnitudeOf? cs = (exponentOf? (spanFraction (spanDigits cs).2).2).bind fun e =>
      if (spanDigits cs).1 = [] && (spanFraction (spanDigits cs).2).1 = [] then none
      else some (ofDecimal (value ((spanDigits cs).1 ++ (spanFraction (spanDigits cs).2).1))
        (e - (spanFraction (spanDigits cs).2).1.length)) := rfl
  rw [heq, hwhole, hfraction]
  cases exponentOf? tail with
  | none => simp
  | some e => by_cases h : whole = [] ∧ fraction = [] <;> simp [h]

theorem exists_magnitudeOf?_iff : (∃ x, magnitudeOf? cs = some x) ↔ IsDecimal cs := by
  rw [← Option.isSome_iff_exists]
  constructor
  · intro h
    rcases hwhole : spanDigits cs with ⟨whole, rest⟩
    rcases hfraction : spanFraction rest with ⟨fraction, tail⟩
    obtain ⟨hexponent, hne⟩ := (isSome_magnitudeOf? hwhole hfraction).1 h
    rw [Option.isSome_iff_exists, exists_exponentOf?_iff] at hexponent
    obtain ⟨rfl, hdigits⟩ := spanDigits_eq hwhole
    unfold spanFraction at hfraction
    split at hfraction
    · obtain ⟨rfl, hdigits'⟩ := spanDigits_eq hfraction
      exact ⟨whole, ['.'], fraction, tail, hdigits, hdigits', hne, .inl rfl, hexponent, rfl⟩
    · obtain ⟨rfl, rfl⟩ := Prod.mk.inj hfraction
      exact ⟨whole, [], [], _, hdigits, by simp [IsDigits], hne, .inr ⟨rfl, rfl⟩, hexponent, rfl⟩
  · rintro ⟨whole, point, fraction, exponent, hwhole, hfraction, hne, hpoint, hexponent, rfl⟩
    have hhead : ∀ c ∈ exponent.head?, isDigit c = false ∧ c ≠ '.' :=
      fun c => head_of_isExponent hexponent
    have htail : (exponentOf? exponent).isSome :=
      Option.isSome_iff_exists.2 (exists_exponentOf?_iff.2 hexponent)
    rcases hpoint with rfl | ⟨rfl, rfl⟩
    · refine (isSome_magnitudeOf? (spanDigits_append hwhole ?_) ?_).2 ⟨htail, hne⟩
      · intro c hc
        cases hc
        decide
      · exact spanDigits_append hfraction fun c hc => (hhead c hc).1
    · refine (isSome_magnitudeOf? (spanDigits_append hwhole fun c hc => (hhead c hc).1) ?_).2
        ⟨htail, hne⟩
      cases exponent with
      | nil => rfl
      | cons c exponent =>
        unfold spanFraction
        split
        · next h => exact absurd (List.cons.inj h).1 (hhead c rfl).2
        · rfl

/-! ### Numbers -/

theorem head_of_isName (h : IsName cs) : ∃ c ∈ cs.head?, c ≠ '+' ∧ c ≠ '-' := by
  cases cs with
  | nil => simp [IsName] at h
  | cons c cs =>
    have hplus : Char.toLower '+' = '+' := rfl
    have hminus : Char.toLower '-' = '-' := rfl
    refine ⟨c, rfl, ?_, ?_⟩ <;> rintro rfl <;>
      simp [IsName, ← String.toList_inj, hplus, hminus] at h

theorem head_of_isDecimal (h : IsDecimal cs) : ∃ c ∈ cs.head?, c ≠ '+' ∧ c ≠ '-' := by
  obtain ⟨whole, point, fraction, exponent, hwhole, -, hne, hpoint, -, rfl⟩ := h
  cases whole with
  | nil =>
    rcases hpoint with rfl | ⟨-, rfl⟩
    · exact ⟨'.', rfl, by decide⟩
    · exact absurd rfl hne
  | cons c whole =>
    have hdigit := hwhole c List.mem_cons_self
    refine ⟨c, rfl, ?_, ?_⟩ <;> rintro rfl <;> cases hdigit

/-- A sign is taken off whatever is read as a number behind it. -/
theorem takeSign_of_body {sign body : List Char} (hsign : IsSign sign)
    (h : IsName body ∨ IsDecimal body) : (takeSign (sign ++ body)).2 = body := by
  obtain ⟨c, hc, hne⟩ := h.elim head_of_isName head_of_isDecimal
  refine takeSign_append hsign fun c' hc' => ?_
  rwa [Option.mem_unique hc' hc]

/-- What is read behind the sign. -/
theorem exists_parse_of_ne (hs : s ≠ "") :
    (∃ x, parse s = .ok x) ↔ IsName (takeSign s.toList).2 ∨ IsDecimal (takeSign s.toList).2 := by
  rw [← exists_magnitudeOf?_iff, IsName]
  simp only [parse, if_neg hs, List.mem_cons, List.not_mem_nil, or_false, Bool.or_eq_true,
    decide_eq_true_eq]
  generalize String.ofList ((takeSign s.toList).2.map Char.toLower) = name
  by_cases hinf : name = "inf" ∨ name = "infinity"
  · have hname : name = "inf" ∨ name = "infinity" ∨ name = "nan" :=
      hinf.elim .inl fun h => .inr (.inl h)
    simp [hinf, hname]
  · by_cases hnan : name = "nan"
    · simp [hnan]
    · cases magnitudeOf? (takeSign s.toList).2 <;> simp [hinf, hnan]

/-- **The texts that are read as a number are those of the grammar.** -/
theorem exists_parse_iff : (∃ x, parse s = .ok x) ↔ IsFloatText s := by
  by_cases hs : s = ""
  · subst hs
    refine ⟨fun ⟨x, hx⟩ => (by cases hx), ?_⟩
    rintro ⟨sign, body, -, hbody, h⟩
    obtain ⟨-, rfl⟩ := List.append_eq_nil_iff.1 h.symm
    obtain ⟨c, hc, -⟩ := hbody.elim head_of_isName head_of_isDecimal
    cases hc
  · rw [exists_parse_of_ne hs]
    constructor
    · intro hbody
      obtain ⟨sign, hsign, h⟩ := exists_takeSign s.toList
      exact ⟨sign, _, hsign, hbody, h⟩
    · rintro ⟨sign, body, hsign, hbody, h⟩
      rwa [h, takeSign_of_body hsign hbody]

/-- Any other text is told of as empty or as invalid. -/
theorem eq_of_parse_eq_error {e : Error} (h : parse s = .error e) :
    e = if s = "" then .empty else .invalid := by
  unfold parse at h
  split at h
  · next hs => rw [if_pos hs, Except.error.inj h]
  · next hs =>
    rw [if_neg hs]
    simp only at h
    split at h
    · cases h
    · exact (Except.error.inj h).symm

end UsageBilling.FloatText
