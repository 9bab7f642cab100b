import Mathlib.Data.List.Sort
import Mathlib.Data.Nat.Choose.Basic
import UsageBilling.Proofs.SourceKey.Candidates

/-!
# Every selection once, in order

The selections of a size are those at all ascending positions, in lexicographic order of the
positions.  A walk that picks one element after the other, and goes back behind each, finds the same.

* `selections_eq_map_positions` : a selection holds the elements at its positions.
* `allPositions_selections` : the positions are all there are, each choice once and in order.
* `fillUp_eq` : what the walk adds to the elements picked so far.
* `selections_enumerate` : the selections, their number, and the walk.
-/

namespace UsageBilling

variable {α β : Type} {items picked : List α} {n size start : Nat}

/-! ### Positions -/

/-- Some positions of a list of `n` elements, in ascending order. -/
structure ArePositions (n size : Nat) (positions : List Nat) : Prop where
  ascending : positions.Pairwise (· < ·)
  lt : ∀ p ∈ positions, p < n
  length : positions.length = size

/-- All choices of positions, in lexicographic order.  The order is strict, so that none of them
comes twice. -/
structure AllPositions (n size : Nat) (choices : List (List Nat)) : Prop where
  mem_iff : ∀ positions, positions ∈ choices ↔ ArePositions n size positions
  ordered : choices.Pairwise (· < ·)

/-- There is only one such list. -/
theorem AllPositions.unique {choices others : List (List Nat)} (h : AllPositions n size choices)
    (h' : AllPositions n size others) : others = choices := by
  have nodup {choices : List (List Nat)} (h : AllPositions n size choices) : choices.Nodup :=
    h.ordered.imp fun hlt heq => by
      subst heq
      exact List.lt_irrefl _ hlt
  have hperm : others.Perm choices :=
    (List.perm_ext_iff_of_nodup (nodup h') (nodup h)).2 fun positions => by
      rw [h'.mem_iff, h.mem_iff]
  exact hperm.eq_of_pairwise (fun a b _ _ hab hba => absurd hba (List.lt_asymm hab)) h'.ordered
    h.ordered

/-- Ascending positions are the sublists of all positions. -/
theorem arePositions_iff {positions : List Nat} :
    ArePositions n size positions ↔ positions.Sublist (List.range n) ∧ positions.length = size := by
  constructor
  · intro h
    have hnodup : positions.Nodup := h.ascending.imp Nat.ne_of_lt
    have hsubset : positions ⊆ List.range n := fun p hp => List.mem_range.2 (h.lt p hp)
    exact ⟨List.sublist_of_subperm_of_sortedLE (hnodup.subperm hsubset)
      (h.ascending.imp Nat.le_of_lt).sortedLE (List.pairwise_lt_range.imp Nat.le_of_lt).sortedLE, h.length⟩
  · rintro ⟨hsub, hlength⟩
    exact ⟨List.pairwise_lt_range.sublist hsub,
      fun p hp => List.mem_range.1 (hsub.subset hp), hlength⟩

/-- **The selections of positions** are all choices of them, each once and in order. -/
theorem allPositions_selections (n size : Nat) :
    AllPositions n size (selections (List.range n) size) where
  mem_iff positions := by rw [mem_selections, arePositions_iff]
  ordered := pairwise_selections List.pairwise_lt_range size

theorem selections_map (f : α → β) (items : List α) (size : Nat) :
    selections (items.map f) size = (selections items size).map (List.map f) := by
  induction items generalizing size with
  | nil => cases size <;> simp
  | cons x items ih =>
    cases size with
    | zero => simp
    | succ size =>
      rw [List.map_cons, selections_cons_succ, selections_cons_succ, ih, ih, List.map_append,
        List.map_map, List.map_map]
      rfl

/-- **A selection holds the elements at its positions**, and there is one at each. -/
theorem selections_eq_map_positions (items : List α) (size : Nat) :
    (selections items size).map (List.map some) =
      (selections (List.range items.length) size).map (List.map (items[·]?)) := by
  have hitems : items.map some = (List.range items.length).map (items[·]?) := by
    refine List.ext_getElem? fun i => ?_
    by_cases hi : i < items.length <;> simp [hi]
  rw [← selections_map, hitems, selections_map]

/-! ### Their number -/

/-- **There are as many selections as the binomial coefficient says.** -/
theorem length_selections (items : List α) (size : Nat) :
    (selections items size).length = items.length.choose size := by
  induction items generalizing size with
  | nil => cases size <;> simp
  | cons x items ih =>
    cases size with
    | zero => simp
    | succ size =>
      rw [selections_cons_succ, List.length_append, List.length_map, ih, ih, List.length_cons,
        Nat.choose_succ_succ]

theorem selections_eq_nil_iff : selections items size = [] ↔ items.length < size := by
  rw [← List.length_eq_zero_iff, length_selections, Nat.choose_eq_zero_iff]

/-! ### The walk -/

/-- The lists of `size` elements that begin with the picked ones and go on at position `start` or
behind it: each element from there on is picked in turn, and taken back before the next. -/
def fillUp (items : List α) (size start : Nat) (picked : List α) : List (List α) :=
  if picked.length = size then [picked]
  else
    (List.range' start (items.length - start)).attach.flatMap fun i =>
      (items[i.1]?).elim [] fun x => fillUp items size (i.1 + 1) (picked ++ [x])
termination_by items.length - start
decreasing_by
  have := List.mem_range'_1.1 i.2
  omega

/-- The walk from the first position on, if there are enough elements. -/
def walk (items : List α) (size : Nat) : List (List α) :=
  if size ≤ items.length then fillUp items size 0 [] else []

/-- A selection starts with some element and goes on behind it. -/
theorem selections_succ_eq_flatMap (items : List α) (size : Nat) :
    selections items (size + 1) = (List.range items.length).flatMap fun i =>
      (items[i]?).elim [] fun x => (selections (items.drop (i + 1)) size).map (x :: ·) := by
  induction items with
  | nil => rfl
  | cons x items ih =>
    rw [selections_cons_succ, ih, List.length_cons, List.range_succ_eq_map, List.flatMap_cons,
      List.flatMap_map]
    rfl

theorem selections_drop_succ (items : List α) (size start : Nat) :
    selections (items.drop start) (size + 1) =
      (List.range' start (items.length - start)).flatMap fun i =>
        (items[i]?).elim [] fun x => (selections (items.drop (i + 1)) size).map (x :: ·) := by
  rw [selections_succ_eq_flatMap, List.length_drop, List.range'_eq_map_range, List.flatMap_map]
  simp only [List.getElem?_drop, List.drop_drop, Nat.add_assoc]

/-- While elements are missing, each from `start` on is picked in turn. -/
theorem fillUp_of_ne (h : picked.length ≠ size) (start : Nat) :
    fillUp items size start picked =
      (List.range' start (items.length - start)).flatMap fun i =>
        (items[i]?).elim [] fun x => fillUp items size (i + 1) (picked ++ [x]) := by
  rw [fillUp, if_neg h]
  simp

/-- **The walk adds the selections from what is left** to the elements picked so far. -/
theorem fillUp_eq (items : List α) (size start : Nat) (picked : List α) :
    fillUp items (picked.length + size) start picked =
      (selections (items.drop start) size).map (picked ++ ·) := by
  cases size with
  | zero => simp [fillUp]
  | succ size =>
    have hpick (x : α) {i : Nat} (hi : i ∈ List.range' start (items.length - start)) :
        fillUp items (picked.length + (size + 1)) (i + 1) (picked ++ [x]) =
          (selections (items.drop (i + 1)) size).map (picked ++ x :: ·) := by
      have hlt := List.mem_range'_1.1 hi
      have hlength : picked.length + (size + 1) = (picked ++ [x]).length + size := by
        simp only [List.length_append, List.length_singleton]
        omega
      rw [hlength, fillUp_eq]
      simp only [List.append_assoc, List.singleton_append]
    rw [fillUp_of_ne (by omega), selections_drop_succ, List.map_flatMap]
    refine List.flatMap_congr fun i hi => ?_
    cases items[i]? with
    | none => rfl
    | some x => simp [hpick x hi]
termination_by items.length - start

theorem walk_eq (items : List α) (size : Nat) : walk items size = selections items size := by
  unfold walk
  split
  · have hfill := fillUp_eq items size 0 []
    simpa using hfill
  · next h => exact (selections_eq_nil_iff.2 (Nat.lt_of_not_le h)).symm

/-! ### The selections -/

/-- **Every selection once, in order.**  There is one list of all choices of positions in
lexicographic order; the selections hold the elements at these positions, and the walk finds the
same.  Their number is the binomial coefficient: no element is selected in one way, and more than
there are in none. -/
theorem selections_enumerate (items : List α) (size : Nat) :
    (∃ choices, AllPositions items.length size choices ∧
      (∀ others, AllPositions items.length size others → others = choices) ∧
      (selections items size).map (List.map some) = choices.map (List.map (items[·]?))) ∧
      (selections items size).length = items.length.choose size ∧
      selections items 0 = [[]] ∧ (selections items size = [] ↔ items.length < size) ∧
      walk items size = selections items size := by
  have hall := allPositions_selections items.length size
  exact ⟨⟨_, hall, fun others h => hall.unique h, selections_eq_map_positions items size⟩,
    length_selections items size, selections_zero items, selections_eq_nil_iff, walk_eq items size⟩

/-- Two of three. -/
example : selections [1, 2, 3] 2 = [[1, 2], [1, 3], [2, 3]] := rfl

end UsageBilling
