/-!
# Powers of two and ten

Numbers are stored in bits and written in decimal places; these are the units of both.
-/

namespace UsageBilling

/-- Two to the `n`. -/
def twoPow (n : Nat) : Nat := Nat.pow 2 n

/-- Ten to the `n`. -/
def tenPow (n : Nat) : Nat := Nat.pow 10 n

@[simp] theorem twoPow_zero : twoPow 0 = 1 := rfl

theorem twoPow_succ (n : Nat) : twoPow (n + 1) = twoPow n * 2 := rfl

@[simp] theorem tenPow_zero : tenPow 0 = 1 := rfl

theorem tenPow_succ (n : Nat) : tenPow (n + 1) = tenPow n * 10 := rfl

theorem tenPow_pos (n : Nat) : 0 < tenPow n := Nat.pow_pos (by decide)

end UsageBilling
