import Mathlib.Algebra.BigOperators.Group.List.Basic
import Mathlib.Algebra.Order.Field.Rat
import Mathlib.Tactic.FieldSimp
import UsageBilling.Number.Decimal

/-!
# Sums that lose no place

Decimals are added one after the other, and each time the sum may have to give up places.  It does
not as long as the magnitudes, all written with the places of the longest, stay below the limit
together.

* `Decimal.value` : what a decimal is worth.
* `Decimal.AddsExactly`, `Decimal.AddsUp` : one addition, and a row of them, without rounding.
* `Decimal.exists_addsExactly` : a sum that fits at some scale is exact.
* `Decimal.exists_addsUp` : so is a row of sums that fit together.
* `Decimal.exists_exactTotal` : so decimals that fit together have an exact total.
-/

namespace UsageBilling

theorem tenPow_add (m n : Nat) : tenPow (m + n) = tenPow m * tenPow n := Nat.pow_add 10 m n

namespace Decimal

variable {x y sum total : Decimal} {xs ys : List Decimal} {s s' : Nat}

/-- What the decimal is worth. -/
def value (x : Decimal) : ℚ := x.coefficient / tenPow x.scale

/-! ### At another scale -/

/-- More places, larger coefficient. -/
theorem coefficientAt_of_le (hx : x.scale ≤ s) (hs : s ≤ s') :
    x.coefficientAt s' = x.coefficientAt s * tenPow (s' - s) := by
  have hplaces : s' - x.scale = (s - x.scale) + (s' - s) := by omega
  rw [coefficientAt, coefficientAt, hplaces, tenPow_add, Nat.cast_mul, Int.mul_assoc]

/-- The worth does not depend on the places it is written with. -/
theorem value_eq (hx : x.scale ≤ s) : x.value = x.coefficientAt s / tenPow s := by
  have hpos : (tenPow x.scale : ℚ) ≠ 0 := Nat.cast_ne_zero.2 (Nat.ne_of_gt (tenPow_pos _))
  have hpos' : (tenPow (s - x.scale) : ℚ) ≠ 0 := Nat.cast_ne_zero.2 (Nat.ne_of_gt (tenPow_pos _))
  have hplaces : tenPow s = tenPow x.scale * tenPow (s - x.scale) := by
    rw [← tenPow_add, Nat.add_sub_cancel' hx]
  rw [value, coefficientAt, hplaces]
  push_cast
  field_simp

theorem coefficientAt_of_isZero (h : x.isZero) (s : Nat) : x.coefficientAt s = 0 := by
  have hzero : x.coefficient = 0 := by
    have hmagnitude : x.magnitude = 0 := of_decide_eq_true h
    simp [coefficient, hmagnitude]
  rw [coefficientAt, hzero, Int.zero_mul]

/-! ### One addition -/

/-- The sum of two decimals has the worth of both together, and all places of either; a zero counts
for no places. -/
structure AddsExactly (x y sum : Decimal) : Prop where
  add?_eq : x.add? y = some sum
  value_eq : sum.value = x.value + y.value
  scale_eq : sum.scale =
    if x.isZero then y.scale else if y.isZero then x.scale else max x.scale y.scale

/-- A coefficient that fits is kept. -/
theorem exists_fit? {c : Int} (hs : s ≤ maxScale) (hc : c.natAbs < magnitudeLimit) :
    ∃ z : Decimal, fit? c s hs = some z ∧ z.coefficient = c ∧ z.scale = s := by
  have hround : roundHalfEven c.natAbs (tenPow 0) = c.natAbs := by
    simpa using roundHalfEven_mul (tenPow_pos 0) (q := c.natAbs)
  refine ⟨⟨c < 0, c.natAbs, s, hc, hs⟩, ?_, ?_, rfl⟩
  · unfold fit? fitFrom?
    simp only [hround, hc, dif_pos]
  · unfold coefficient
    by_cases hneg : c < 0
    · simp only [hneg, decide_true, if_true]
      omega
    · simp only [hneg, decide_false, Bool.false_eq_true, if_false]
      omega

/-- The scale of a sum is that of one of the two. -/
theorem AddsExactly.scale_le (h : AddsExactly x y sum) (hx : x.scale ≤ s) (hy : y.scale ≤ s) :
    sum.scale ≤ s := by
  rw [h.scale_eq]
  split
  · exact hy
  · split
    · exact hx
    · exact Nat.max_le.2 ⟨hx, hy⟩

/-- At a scale that is large enough, coefficients are added. -/
theorem AddsExactly.coefficientAt_eq (h : AddsExactly x y sum) (hx : x.scale ≤ s)
    (hy : y.scale ≤ s) : sum.coefficientAt s = x.coefficientAt s + y.coefficientAt s := by
  have hpos : (tenPow s : ℚ) ≠ 0 := Nat.cast_ne_zero.2 (Nat.ne_of_gt (tenPow_pos s))
  have hvalue := h.value_eq
  rw [Decimal.value_eq hx, Decimal.value_eq hy, Decimal.value_eq (h.scale_le hx hy), ← add_div,
    div_left_inj' hpos] at hvalue
  exact_mod_cast hvalue

/-- **A sum that fits is exact**, at whatever scale it is seen to fit. -/
theorem exists_addsExactly (hx : x.scale ≤ s) (hy : y.scale ≤ s)
    (hfits : (x.coefficientAt s + y.coefficientAt s).natAbs < magnitudeLimit) :
    ∃ sum, AddsExactly x y sum := by
  by_cases hzero : x.isZero
  · have hvalue : x.value = 0 := by
      rw [Decimal.value_eq (Nat.le_refl _), coefficientAt_of_isZero hzero]
      simp
    exact ⟨y, by simp [add?, hzero], by rw [hvalue, zero_add], by simp [hzero]⟩
  by_cases hzero' : y.isZero
  · have hvalue : y.value = 0 := by
      rw [Decimal.value_eq (Nat.le_refl _), coefficientAt_of_isZero hzero']
      simp
    exact ⟨x, by simp [add?, hzero, hzero'], by rw [hvalue, add_zero], by simp [hzero, hzero']⟩
  -- with fewer places the coefficient is smaller, so it fits at the scale of the sum too
  have hle : max x.scale y.scale ≤ s := Nat.max_le.2 ⟨hx, hy⟩
  have hsmaller : (x.coefficientAt (max x.scale y.scale) +
      y.coefficientAt (max x.scale y.scale)).natAbs < magnitudeLimit := by
    rw [coefficientAt_of_le (Nat.le_max_left _ _) hle, coefficientAt_of_le (Nat.le_max_right _ _) hle,
      ← Int.add_mul, Int.natAbs_mul, Int.natAbs_natCast] at hfits
    exact Nat.lt_of_le_of_lt (Nat.le_mul_of_pos_right _ (tenPow_pos _)) hfits
  obtain ⟨sum, hfit, hcoefficient, hscale⟩ :=
    exists_fit? (Nat.max_le.2 ⟨x.scale_le, y.scale_le⟩) hsmaller
  refine ⟨sum, by simp only [add?, hzero, hzero']; exact hfit, ?_, by simp [hzero, hzero', hscale]⟩
  rw [Decimal.value_eq (Nat.le_max_left x.scale y.scale),
    Decimal.value_eq (Nat.le_max_right x.scale y.scale), value, hcoefficient, hscale, ← add_div,
    Int.cast_add]

/-! ### A row of additions -/

/-- Decimals are added to a sum one after the other, and each time nothing is rounded. -/
inductive AddsUp : Decimal → List Decimal → Decimal → Prop
  | nil (sum : Decimal) : AddsUp sum [] sum
  | cons {sum x next total : Decimal} {xs : List Decimal} :
      AddsExactly sum x next → AddsUp next xs total → AddsUp sum (x :: xs) total

theorem AddsUp.foldlM_eq (h : AddsUp sum xs total) : xs.foldlM add? sum = some total := by
  induction h with
  | nil => rfl
  | cons hadd _ ih =>
    rw [List.foldlM_cons, hadd.add?_eq]
    exact ih

theorem AddsUp.sum?_eq (h : AddsUp zero xs total) : sum? xs = some total := h.foldlM_eq

/-- The coefficients at a scale, added up. -/
def coefficientSum (s : Nat) (xs : List Decimal) : Int := (xs.map (·.coefficientAt s)).sum

/-- The magnitudes at a scale, added up. -/
def magnitudeSum (s : Nat) (xs : List Decimal) : Nat :=
  (xs.map fun x => (x.coefficientAt s).natAbs).sum

theorem natAbs_coefficientSum_le (s : Nat) (xs : List Decimal) :
    (coefficientSum s xs).natAbs ≤ magnitudeSum s xs := by
  induction xs with
  | nil => exact Nat.le_refl 0
  | cons x xs ih =>
    simp only [coefficientSum, magnitudeSum, List.map_cons, List.sum_cons] at ih ⊢
    omega

theorem sum_map_value (h : ∀ x ∈ xs, x.scale ≤ s) :
    (xs.map value).sum = coefficientSum s xs / tenPow s := by
  induction xs with
  | nil => simp [coefficientSum]
  | cons x xs ih =>
    obtain ⟨hx, hxs⟩ := List.forall_mem_cons.1 h
    rw [List.map_cons, List.sum_cons, ih hxs, value_eq hx, ← add_div, ← Int.cast_add]
    rfl

/-- **Sums that fit together are exact.** -/
theorem exists_addsUp (hsum : sum.scale ≤ s) (hxs : ∀ x ∈ xs, x.scale ≤ s)
    (hfits : (sum.coefficientAt s).natAbs + magnitudeSum s xs < magnitudeLimit) :
    ∃ total, AddsUp sum xs total ∧ total.scale ≤ s ∧
      total.coefficientAt s = sum.coefficientAt s + coefficientSum s xs := by
  induction xs generalizing sum with
  | nil => exact ⟨sum, .nil sum, hsum, by simp [coefficientSum]⟩
  | cons x xs ih =>
    obtain ⟨hx, hrest⟩ := List.forall_mem_cons.1 hxs
    have hsplit : magnitudeSum s (x :: xs) = (x.coefficientAt s).natAbs + magnitudeSum s xs := rfl
    rw [hsplit] at hfits
    obtain ⟨next, hadd⟩ := exists_addsExactly hsum hx (by omega)
    have hnext := hadd.coefficientAt_eq hsum hx
    obtain ⟨total, hups, hscale, htotal⟩ :=
      ih (hadd.scale_le hsum hx) hrest (by rw [hnext]; omega)
    refine ⟨total, .cons hadd hups, hscale, ?_⟩
    rw [htotal, hnext, Int.add_assoc]
    rfl

/-! ### Totals -/

/-- The most places that any of the decimals has. -/
def largestScale : List Decimal → Nat
  | [] => 0
  | x :: xs => max x.scale (largestScale xs)

theorem scale_le_largestScale : ∀ x ∈ xs, x.scale ≤ largestScale xs := by
  induction xs with
  | nil => simp
  | cons x xs ih =>
    intro y hy
    rcases List.mem_cons.1 hy with rfl | hy
    · exact Nat.le_max_left _ _
    · exact Nat.le_trans (ih y hy) (Nat.le_max_right _ _)

theorem largestScale_perm (h : xs.Perm ys) :
    largestScale xs = largestScale ys := by
  induction h with
  | nil => rfl
  | cons x _ ih => rw [largestScale, largestScale, ih]
  | swap x y xs =>
    simp only [largestScale]
    omega
  | trans _ _ ih ih' => exact ih.trans ih'

theorem magnitudeSum_perm (h : xs.Perm ys) (s : Nat) :
    magnitudeSum s xs = magnitudeSum s ys := (h.map _).sum_nat

theorem magnitudeSum_append (s : Nat) (xs ys : List Decimal) :
    magnitudeSum s (xs ++ ys) = magnitudeSum s xs + magnitudeSum s ys := by
  simp [magnitudeSum]

/-- The total comes of additions that round nothing, is worth what the decimals are together, and has
at most the given places. -/
structure ExactTotal (s : Nat) (xs : List Decimal) (total : Decimal) : Prop where
  addsUp : AddsUp zero xs total
  value_eq : total.value = (xs.map value).sum
  scale_le : total.scale ≤ s

/-- **Decimals that fit together have an exact total.** -/
theorem exists_exactTotal (hxs : ∀ x ∈ xs, x.scale ≤ s)
    (hfits : magnitudeSum s xs < magnitudeLimit) : ∃ total, ExactTotal s xs total := by
  have hzero : zero.coefficientAt s = 0 := coefficientAt_of_isZero rfl s
  obtain ⟨total, hups, hscale, htotal⟩ :=
    exists_addsUp (Nat.zero_le s : zero.scale ≤ s) hxs (by rw [hzero]; simpa using hfits)
  refine ⟨total, hups, ?_, hscale⟩
  rw [value_eq hscale, htotal, hzero, Int.zero_add, sum_map_value hxs]

/-- An exact total has the coefficients added up. -/
theorem ExactTotal.coefficientAt_eq (h : ExactTotal s xs total) (hxs : ∀ x ∈ xs, x.scale ≤ s) :
    total.coefficientAt s = coefficientSum s xs := by
  have hpos : (tenPow s : ℚ) ≠ 0 := Nat.cast_ne_zero.2 (Nat.ne_of_gt (tenPow_pos s))
  have hvalue := h.value_eq
  rw [Decimal.value_eq h.scale_le, sum_map_value hxs, div_left_inj' hpos] at hvalue
  exact_mod_cast hvalue

end Decimal

end UsageBilling
