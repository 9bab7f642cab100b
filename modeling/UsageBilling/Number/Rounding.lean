/-!
# Rounding a quotient

`roundHalfEven num den` is the whole number nearest to `num / den`; of two that are as near, the
even one.  `roundHalfUp num den` takes the larger of two.
-/

namespace UsageBilling

/-- The nearest whole number to a quotient, the even one of two. -/
def roundHalfEven (num den : Nat) : Nat :=
  let q := num / den
  let r := num % den
  if den < 2 * r || (2 * r = den && q % 2 = 1) then q + 1 else q

/-- The nearest whole number to a quotient, the larger of two. -/
def roundHalfUp (num den : Nat) : Nat :=
  let q := num / den
  if den ≤ 2 * (num % den) then q + 1 else q

/-- The rounded number is at most half a unit away. -/
theorem roundHalfEven_near {num den : Nat} (h : 0 < den) :
    2 * (roundHalfEven num den * den) ≤ 2 * num + den ∧
      2 * num ≤ 2 * (roundHalfEven num den * den) + den := by
  have hd := Nat.div_add_mod num den
  have hr := Nat.mod_lt num h
  rw [Nat.mul_comm] at hd
  unfold roundHalfEven
  simp only [Bool.or_eq_true, decide_eq_true_eq, Bool.and_eq_true]
  split
  · next hc => rw [Nat.add_mul, Nat.one_mul]; omega
  · next hc => omega

/-- The rounded number is at most half a unit away, and less than that when it is the smaller. -/
theorem roundHalfUp_near {num den : Nat} (h : 0 < den) :
    2 * (roundHalfUp num den * den) ≤ 2 * num + den ∧
      2 * num < 2 * (roundHalfUp num den * den) + den := by
  have hd := Nat.div_add_mod num den
  have hr := Nat.mod_lt num h
  rw [Nat.mul_comm] at hd
  unfold roundHalfUp
  dsimp only
  split
  · next hc => rw [Nat.add_mul, Nat.one_mul]; omega
  · next hc => omega

/-- A quotient without remainder is not rounded. -/
theorem roundHalfEven_mul {q den : Nat} (h : 0 < den) : roundHalfEven (q * den) den = q := by
  unfold roundHalfEven
  simp only [Nat.mul_div_cancel _ h, Nat.mul_mod_left]
  simp [Ne.symm (Nat.pos_iff_ne_zero.1 h)]

end UsageBilling
