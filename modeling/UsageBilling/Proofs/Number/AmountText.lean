import UsageBilling.Number.DecimalText

/-!
# The text of a decimal

A decimal is read back from its text with all its places, up to the sign of a zero:
`Decimal.ofText?_render`.  The text of a negative zero still has the sign, so that different decimals
have different texts: `Decimal.render_injective`.

* `Decimal.Reading.run?_whole`, `Decimal.Reading.run?_fraction` : digits are read one by one, in
  front of the point and behind it, as long as they fit.
-/

namespace UsageBilling.Decimal

open Text (withDigits withDigits_cons le_withDigits)

variable {cs rest : List Char}

/-! ### Digits -/

/-- A digit that fits is read, and there may be more behind it. -/
theorem Reading.run?_digit {r : Reading} {c : Char} (hc : Text.isDigit c = true)
    (hfit : 10 * r.magnitude + Text.digitValue c < magnitudeLimit)
    (hplaces : r.seenPoint = true → r.places + 1 < maxScale) (rest : List Char) :
    r.run? (c :: rest) =
      Reading.run? ⟨10 * r.magnitude + Text.digitValue c, if r.seenPoint then r.places + 1 else 0,
        r.seenPoint, true⟩ rest := by
  rw [Reading.run?, if_pos hc, if_pos hfit]
  cases hpoint : r.seenPoint with
  | false => simp
  | true =>
    have hmore := Nat.not_le.2 (hplaces hpoint)
    simp [hmore]

/-- **The digits in front of the point are read.** -/
theorem Reading.run?_whole (hdigits : ∀ c ∈ cs, Text.isDigit c = true) {magnitude : Nat}
    (hfit : withDigits magnitude cs < magnitudeLimit) (seenDigit : Bool) (rest : List Char) :
    Reading.run? ⟨magnitude, 0, false, seenDigit⟩ (cs ++ rest) =
      Reading.run? ⟨withDigits magnitude cs, 0, false, seenDigit || !cs.isEmpty⟩ rest := by
  induction cs generalizing magnitude seenDigit with
  | nil => simp [withDigits]
  | cons c cs ih =>
    rw [withDigits_cons] at hfit
    have hle := le_withDigits (10 * magnitude + Text.digitValue c) cs
    have hstep := Reading.run?_digit (r := ⟨magnitude, 0, false, seenDigit⟩)
      (hdigits c List.mem_cons_self) (Nat.lt_of_le_of_lt hle hfit)
      (fun h => absurd h Bool.false_ne_true) (cs ++ rest)
    rw [List.cons_append, hstep]
    have hrest := ih (fun d hd => hdigits d (List.mem_cons_of_mem _ hd)) hfit true
    simpa [withDigits_cons] using hrest

/-- **The digits behind the point are read**, up to the last possible place. -/
theorem Reading.run?_fraction (hdigits : ∀ c ∈ cs, Text.isDigit c = true) {magnitude places : Nat}
    (hfit : withDigits magnitude cs < magnitudeLimit) (hplaces : places + cs.length ≤ maxScale) :
    Reading.run? ⟨magnitude, places, true, true⟩ cs =
      some ⟨withDigits magnitude cs, places + cs.length, true, true⟩ := by
  induction cs generalizing magnitude places with
  | nil => rfl
  | cons c cs ih =>
    rw [withDigits_cons] at hfit
    rw [List.length_cons] at hplaces
    have hle := le_withDigits (10 * magnitude + Text.digitValue c) cs
    have hfit' := Nat.lt_of_le_of_lt hle hfit
    by_cases hlast : places + 1 < maxScale
    · have hstep := Reading.run?_digit (r := ⟨magnitude, places, true, true⟩)
        (hdigits c List.mem_cons_self) hfit' (fun _ => hlast) cs
      have hrest := @ih (fun d hd => hdigits d (List.mem_cons_of_mem _ hd)) _ (places + 1) hfit
        (by omega)
      rw [hstep, withDigits_cons, List.length_cons]
      simpa [Nat.add_assoc, Nat.add_comm 1] using hrest
    · -- nothing can follow the last place
      obtain rfl : cs = [] := List.length_eq_zero_iff.1 (by omega)
      rw [Reading.run?, if_pos (hdigits c List.mem_cons_self), if_pos hfit']
      simp [Reading.finish?, withDigits, Nat.not_lt.1 hlast]

/-! ### Decimals -/

/-- A zero without its sign; other decimals as they are. -/
def withPlainZero (x : Decimal) : Decimal :=
  { x with negative := x.negative && x.magnitude ≠ 0 }

/-- The digits of a decimal in front of the point, at least one, and behind it. -/
theorem exists_render_eq (x : Decimal) : ∃ whole fraction, whole ≠ [] ∧
    (∀ c ∈ whole, Text.isDigit c = true) ∧ (∀ c ∈ fraction, Text.isDigit c = true) ∧
    fraction.length = x.scale ∧ Text.value (whole ++ fraction) = x.magnitude ∧
    x.render.toList = (if x.negative then ['-'] else []) ++ (whole ++
      if fraction = [] then [] else '.' :: fraction) := by
  have hlength := Text.le_length_padded (x.scale + 1) x.magnitude
  have hdigit : ∀ c ∈ Text.padded (x.scale + 1) x.magnitude, Text.isDigit c = true :=
    fun _ hc => Text.isDigit_of_mem_padded hc
  refine ⟨(Text.padded (x.scale + 1) x.magnitude).take
      ((Text.padded (x.scale + 1) x.magnitude).length - x.scale),
    (Text.padded (x.scale + 1) x.magnitude).drop
      ((Text.padded (x.scale + 1) x.magnitude).length - x.scale), ?_, ?_, ?_, ?_, ?_, ?_⟩
  · exact List.ne_nil_of_length_pos (by rw [List.length_take]; omega)
  · exact fun c hc => hdigit c (List.mem_of_mem_take hc)
  · exact fun c hc => hdigit c (List.mem_of_mem_drop hc)
  · rw [List.length_drop]
    omega
  · rw [List.take_append_drop, Text.value_padded]
  · simp [render]

/-- A sign is read off the front of what does not start with one. -/
theorem ofPlainText?_sign (negative : Bool) {cs : List Char}
    (h : ∀ c ∈ cs.head?, c ≠ '-' ∧ c ≠ '+') :
    ofPlainText? ((if negative then ['-'] else []) ++ cs) =
      (Reading.run? ⟨0, 0, false, false⟩ cs).bind fun r =>
        ofParts? (negative && r.magnitude ≠ 0) r.magnitude r.places := by
  cases negative with
  | true => rfl
  | false =>
    simp only [ofPlainText?]
    split
    · next tail hminus =>
      subst hminus
      exact absurd rfl (h '-' rfl).1
    · next tail hplus =>
      subst hplus
      exact absurd rfl (h '+' rfl).2
    · rfl

/-- Digits with a point among them, or none, are read with all their places. -/
theorem exists_run?_eq {whole fraction : List Char} (hne : whole ≠ [])
    (hwhole : ∀ c ∈ whole, Text.isDigit c = true) (hfraction : ∀ c ∈ fraction, Text.isDigit c = true)
    (hlimit : withDigits (withDigits 0 whole) fraction < magnitudeLimit)
    (hplaces : fraction.length ≤ maxScale) :
    ∃ seenPoint, Reading.run? ⟨0, 0, false, false⟩
      (whole ++ if fraction = [] then [] else '.' :: fraction) =
        some ⟨withDigits (withDigits 0 whole) fraction, fraction.length, seenPoint, true⟩ := by
  have hfit : withDigits 0 whole < magnitudeLimit :=
    Nat.lt_of_le_of_lt (le_withDigits _ fraction) hlimit
  have hseen : (false || !whole.isEmpty) = true := by simpa using hne
  rw [Reading.run?_whole hwhole hfit, hseen]
  split
  · next hnil =>
    subst hnil
    exact ⟨false, rfl⟩
  · have hpoint : Reading.run? ⟨withDigits 0 whole, 0, false, true⟩ ('.' :: fraction) =
        Reading.run? ⟨withDigits 0 whole, 0, true, true⟩ fraction := by
      rw [Reading.run?]
      rfl
    rw [hpoint, Reading.run?_fraction hfraction hlimit (by omega), Nat.zero_add]
    exact ⟨true, rfl⟩

/-- **A decimal is read back from its text**, with all its places. -/
theorem ofPlainText?_render (x : Decimal) : ofPlainText? x.render.toList = some x.withPlainZero := by
  obtain ⟨whole, fraction, hne, hwhole, hfraction, hscale, hvalue, htext⟩ := exists_render_eq x
  have hmagnitude : withDigits (withDigits 0 whole) fraction = x.magnitude := by
    rw [← hvalue, Text.value_append]
    rfl
  have hsign : ∀ c ∈ (whole ++ if fraction = [] then [] else '.' :: fraction).head?,
      c ≠ '-' ∧ c ≠ '+' := by
    obtain ⟨d, ds, rfl⟩ := List.exists_cons_of_ne_nil hne
    have hd := hwhole d List.mem_cons_self
    rintro c ⟨⟩
    constructor <;> rintro rfl <;> cases hd
  obtain ⟨seenPoint, hread⟩ := exists_run?_eq hne hwhole hfraction
    (hmagnitude.symm ▸ x.magnitude_lt) (hscale.symm ▸ x.scale_le)
  rw [htext, ofPlainText?_sign x.negative hsign, hread, Option.bind_some]
  simp only [hmagnitude, hscale]
  exact dif_pos ⟨x.magnitude_lt, x.scale_le⟩

theorem ofText?_render (x : Decimal) : ofText? x.render = some x.withPlainZero := by
  rw [ofText?, ofPlainText?_render]
  rfl

/-- The sign is at the front of the text, also of a zero. -/
theorem negative_eq (x : Decimal) : x.negative = (x.render.toList.head? = some '-') := by
  obtain ⟨whole, fraction, hne, hwhole, -, -, -, htext⟩ := exists_render_eq x
  obtain ⟨d, ds, rfl⟩ := List.exists_cons_of_ne_nil hne
  have hd := hwhole d List.mem_cons_self
  rw [htext]
  cases x.negative with
  | true => simp
  | false =>
    have hminus : d ≠ '-' := by
      rintro rfl
      cases hd
    simp [hminus]

/-- **Different decimals have different texts.** -/
theorem render_injective {x y : Decimal} (h : x.render = y.render) : x = y := by
  have hread := (ofText?_render x).symm.trans (h ▸ ofText?_render y)
  have hnegative : x.negative = y.negative := by
    rw [Bool.eq_iff_iff, negative_eq, negative_eq, h]
  obtain ⟨-, hmagnitude, hscale⟩ : (x.negative && x.magnitude ≠ 0) = (y.negative && y.magnitude ≠ 0) ∧
      x.magnitude = y.magnitude ∧ x.scale = y.scale := by
    simpa [withPlainZero] using hread
  obtain ⟨negative, magnitude, scale, _, _⟩ := x
  obtain ⟨negative', magnitude', scale', _, _⟩ := y
  subst hnegative hmagnitude hscale
  rfl

end UsageBilling.Decimal
