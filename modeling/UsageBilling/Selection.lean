/-!
# Selections from a list

`selections xs k` lists every way to pick `k` positions of `xs`, as the picked elements in their
order.  The picks come in lexicographic order of their positions: those that take the first
element come before those that leave it out.
-/

namespace UsageBilling

/-- Every choice of `k` positions of the list, in lexicographic order of the positions. -/
def selections {α : Type} : List α → Nat → List (List α)
  | _, 0 => [[]]
  | [], _ + 1 => []
  | x :: xs, k + 1 => (selections xs k).map (x :: ·) ++ selections xs (k + 1)

variable {α : Type}

@[simp] theorem selections_zero (xs : List α) : selections xs 0 = [[]] := by
  cases xs <;> rfl

@[simp] theorem selections_nil_succ (k : Nat) : selections ([] : List α) (k + 1) = [] := rfl

theorem selections_cons_succ (x : α) (xs : List α) (k : Nat) :
    selections (x :: xs) (k + 1) = (selections xs k).map (x :: ·) ++ selections xs (k + 1) := rfl

/-- More positions than there are cannot be picked. -/
theorem selections_eq_nil {xs : List α} {k : Nat} (h : xs.length < k) : selections xs k = [] := by
  induction xs generalizing k with
  | nil => cases k with
    | zero => simp at h
    | succ k => rfl
  | cons x xs ih => cases k with
    | zero => simp at h
    | succ k =>
      simp only [List.length_cons] at h
      simp [selections_cons_succ, ih (show xs.length < k by omega),
        ih (show xs.length < k + 1 by omega)]

end UsageBilling
