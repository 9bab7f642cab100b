import Mathlib.Data.Finset.Sort
import Mathlib.Order.Interval.Finset.Nat
import UsageBilling.Proofs.SourceKey.Candidates

/-!
# Every lookup key in its place

The lookup keys of a source key are made in a loop that gives up one segment after the other, with
a list of wildcard positions that shrinks along.  Here they are set against what they are to be: the
text at each `Placement`, every one of them once, in the order of `Placement.Before`.

* `SourceKey.enumerates_placements` : the loop passes through every placement in order.
* `SourceKey.lookupKeys?_eq` : no segment is read or replaced that is not there.
* `SourceKey.lookupKeys_enumerate` : the lookup keys, from the key itself down to its query.
-/

namespace UsageBilling

namespace SourceKey

variable {n : Nat} {segments bare : List String} {positions wildcards : List Nat}

/-! ### Placements -/

/-- How many segments of a key are kept, and at which positions a wildcard stands instead. -/
abbrev Placement := Nat × Finset Nat

/-- Some of `n` segments are kept, and all but the first and the last of them may be wildcards. -/
def IsPlacement (n : Nat) (place : Placement) : Prop :=
  1 ≤ place.1 ∧ place.1 ≤ n ∧ place.2 ⊆ Finset.Icc 1 (place.1 - 2)

/-- More segments come before fewer; of as many, fewer wildcards before more; of as many again, the
positions that are later in lexicographic order before the earlier. -/
def Placement.Before (a b : Placement) : Prop :=
  b.1 < a.1 ∨ (b.1 = a.1 ∧ (a.2.card < b.2.card ∨
    (a.2.card = b.2.card ∧ b.2.sort (· ≤ ·) < a.2.sort (· ≤ ·))))

/-- Every placement, each once, in order. -/
structure Enumerates (n : Nat) (places : List Placement) : Prop where
  mem_iff : ∀ place, place ∈ places ↔ IsPlacement n place
  nodup : places.Nodup
  ordered : places.Pairwise Placement.Before

/-- The source at a placement: the segments that are kept, those among the positions replaced. -/
def placed (segments : List String) (place : Placement) : String :=
  Text.joinText segmentSeparator
    ((segments.take place.1).mapIdx fun i segment => if i ∈ place.2 then wildcard else segment)

theorem Placement.Before.asymm {a b : Placement} (h : a.Before b) : ¬ b.Before a := by
  rintro (h' | ⟨_, h' | ⟨_, h'⟩⟩)
  · rcases h with h | h <;> omega
  · rcases h with h | ⟨_, h | h⟩ <;> omega
  · rcases h with h | ⟨_, h | ⟨_, h⟩⟩
    · omega
    · omega
    · exact lt_asymm h h'

/-- There is only one such list. -/
theorem Enumerates.unique {places others : List Placement} (h : Enumerates n places)
    (h' : Enumerates n others) : others = places := by
  have hperm : others.Perm places :=
    (List.perm_ext_iff_of_nodup h'.nodup h.nodup).2 fun place => by
      rw [h'.mem_iff, h.mem_iff]
  exact hperm.eq_of_pairwise (fun a b _ _ hab hba => absurd hba hab.asymm) h'.ordered h.ordered

/-! ### The loop passes through the placements -/

/-- The positions as a set. -/
def toPlacement (place : Nat × List Nat) : Placement := (place.1, place.2.toFinset)

/-- Positions that are ascending are found again in their set. -/
theorem sort_toFinset_of_sublist {len : Nat} (h : positions.Sublist (inner len)) :
    positions.toFinset.sort (· ≤ ·) = positions := by
  have hlt : positions.Pairwise (· < ·) := (pairwise_inner len).sublist h
  exact (List.toFinset_sort (· ≤ ·) (hlt.imp fun h => Nat.ne_of_lt h)).2 (hlt.imp Nat.le_of_lt)

theorem card_toFinset_of_sublist {len : Nat} (h : positions.Sublist (inner len)) :
    positions.toFinset.card = positions.length := by
  rw [← Finset.length_sort (· ≤ ·), sort_toFinset_of_sublist h]

theorem pairwise_toPlacement (n : Nat) :
    ((placements n).map toPlacement).Pairwise Placement.Before := by
  rw [List.pairwise_map]
  refine (pairwise_placements n).imp_of_mem fun {a b} ha hb hab => ?_
  obtain ⟨-, -, hsub⟩ := mem_placements.1 ha
  obtain ⟨-, -, hsub'⟩ := mem_placements.1 hb
  simp only [Placement.Before, toPlacement, card_toFinset_of_sublist hsub,
    card_toFinset_of_sublist hsub', sort_toFinset_of_sublist hsub, sort_toFinset_of_sublist hsub']
  exact hab

theorem mem_toPlacement {place : Placement} :
    place ∈ (placements n).map toPlacement ↔ IsPlacement n place := by
  obtain ⟨len, wild⟩ := place
  have hmem : ∀ i, i ∈ inner len ↔ i ∈ Finset.Icc 1 (len - 2) := by
    intro i
    rw [mem_inner, Finset.mem_Icc]
    omega
  rw [List.mem_map]
  constructor
  · rintro ⟨⟨_, positions⟩, hplace, heq⟩
    obtain ⟨rfl, rfl⟩ := Prod.mk.inj heq
    obtain ⟨hpos, hle, hsub⟩ := mem_placements.1 hplace
    exact ⟨hpos, hle, fun i hi => (hmem i).1 (hsub.subset (List.mem_toFinset.1 hi))⟩
  · rintro ⟨hpos, hle, hsub⟩
    refine ⟨(len, (inner len).filter (· ∈ wild)), mem_placements.2 ⟨hpos, hle,
      List.filter_sublist⟩, Prod.ext rfl ?_⟩
    ext i
    rw [toPlacement, List.mem_toFinset, List.mem_filter, decide_eq_true_iff, hmem]
    exact ⟨And.right, fun hi => ⟨hsub hi, hi⟩⟩

/-- **The loop passes through every placement**, each once and in order. -/
theorem enumerates_placements (n : Nat) : Enumerates n ((placements n).map toPlacement) where
  mem_iff _ := mem_toPlacement
  nodup := (pairwise_toPlacement n).imp fun h => by
    rintro rfl
    exact h.asymm h
  ordered := pairwise_toPlacement n

theorem placed_toPlacement (segments : List String) (place : Nat × List Nat) :
    placed segments (toPlacement place) = sourceAt segments place := by
  simp only [placed, toPlacement, sourceAt, mask_eq_mapIdx, List.mem_toFinset]

theorem lookupKeys_eq_map_placed {k : SourceKey} {places : List Placement}
    (h : Enumerates k.segments.length places) :
    k.lookupKeys = places.map (placed k.segments) := by
  rw [(enumerates_placements _).unique h, lookupKeys_eq, List.map_map]
  exact List.map_congr_left fun place _ => (placed_toPlacement _ place).symm

/-! ### No segment is missing -/

/-- The first segments, if there are so many. -/
def take? (segments : List String) (len : Nat) : Option (List String) :=
  if len ≤ segments.length then some (segments.take len) else none

/-- A wildcard in place of a segment, if there is one at the position. -/
def replace? (segments : List String) (p : Nat) : Option (List String) :=
  if p < segments.length then some (segments.set p wildcard) else none

/-- `keysOfLength`, with no result if a segment is missing. -/
def keysOfLength? (segments : List String) (wildcards : List Nat) (len : Nat) :
    Option (List String) := do
  let bare ← take? segments len
  let choices := (List.range wildcards.length).flatMap fun k =>
    (selections wildcards (k + 1)).reverse
  ([] :: choices).mapM fun positions =>
    (positions.foldlM replace? bare).map (Text.joinText segmentSeparator)

/-- `keysUpToLength`, with no result if a segment is missing. -/
def keysUpToLength? (segments : List String) :
    (wildcards : List Nat) → (len : Nat) → Option (List String)
  | _, 0 => some []
  | wildcards, len + 1 => do
    let keys ← keysOfLength? segments wildcards (len + 1)
    let shorter ← keysUpToLength? segments
      (if len + 1 > 2 then wildcards.dropLast else wildcards) len
    some (keys ++ shorter)

/-- `lookupKeys`, with no result if a segment is missing. -/
def lookupKeys? (k : SourceKey) : Option (List String) :=
  let wildcards := if k.className = "" then [1, 2] else [1, 2, 3]
  keysUpToLength? k.segments wildcards k.segments.length

theorem foldlM_replace? (h : ∀ p ∈ positions, p < bare.length) :
    positions.foldlM replace? bare = some (mask bare positions) := by
  induction positions generalizing bare with
  | nil => rfl
  | cons p positions ih =>
    have hp : replace? bare p = some (bare.set p wildcard) := if_pos (h p List.mem_cons_self)
    rw [List.foldlM_cons, hp]
    refine ih fun q hq => ?_
    rw [List.length_set]
    exact h q (List.mem_cons_of_mem p hq)

theorem mapM_eq_some_map {α β : Type} {f : α → Option β} {g : α → β} {l : List α}
    (h : ∀ a ∈ l, f a = some (g a)) : l.mapM f = some (l.map g) := by
  induction l with
  | nil => rfl
  | cons a l ih =>
    rw [List.mapM_cons, h a List.mem_cons_self, ih fun b hb => h b (List.mem_cons_of_mem a hb)]
    rfl

theorem keysOfLength?_eq {len : Nat} (hlen : len ≤ segments.length)
    (h : ∀ p ∈ wildcards, p < len) :
    keysOfLength? segments wildcards len = some (keysOfLength segments wildcards len) := by
  have hbare : take? segments len = some (segments.take len) := if_pos hlen
  have hlength : (segments.take len).length = len := by
    rw [List.length_take, Nat.min_eq_left hlen]
  unfold keysOfLength?
  rw [hbare, Option.bind_eq_bind, Option.bind_some, keysOfLength]
  dsimp only
  refine mapM_eq_some_map fun positions hpositions => ?_
  have hmem : ∀ p ∈ positions, p ∈ wildcards := by
    rcases List.mem_cons.1 hpositions with rfl | hchoice
    · simp
    · obtain ⟨k, -, hk⟩ := List.mem_flatMap.1 hchoice
      exact fun p hp => (mem_selections.1 (List.mem_reverse.1 hk)).1.subset hp
  rw [foldlM_replace? fun p hp => hlength.symm ▸ h p (hmem p hp)]
  rfl

theorem keysUpToLength?_eq (hn : n ≤ segments.length) :
    keysUpToLength? segments (inner n) n = some (keysUpToLength segments (inner n) n) := by
  induction n with
  | zero => rfl
  | succ n ih =>
    have hinner : ∀ p ∈ inner (n + 1), p < n + 1 := fun p hp => by
      have := mem_inner.1 hp
      omega
    rw [keysUpToLength?, keysUpToLength, inner_dropLast, keysOfLength?_eq hn hinner,
      ih (Nat.le_of_succ_le hn)]
    rfl

/-- **No segment is missing** where one is read or replaced. -/
theorem lookupKeys?_eq (k : SourceKey) : k.lookupKeys? = some k.lookupKeys := by
  have hwildcards : (if k.className = "" then [1, 2] else [1, 2, 3]) = inner k.segments.length := by
    by_cases h : k.className = "" <;> simp [h, SourceKey.segments, inner, List.range']
  unfold lookupKeys? lookupKeys
  rw [hwildcards]
  exact keysUpToLength?_eq (Nat.le_refl _)

/-! ### The first and the last key -/

theorem getLast?_placements (h : 0 < n) : (placements n).getLast? = some (1, []) := by
  induction n with
  | zero => cases h
  | succ n ih =>
    cases n with
    | zero => rfl
    | succ n => rw [placements, List.getLast?_append, ih (Nat.succ_pos n), Option.some_or]

theorem length_segments_pos (k : SourceKey) : 0 < k.segments.length := by
  simp [SourceKey.segments]

theorem head?_lookupKeys (k : SourceKey) : k.lookupKeys.head? = some k.render := by
  obtain ⟨n, hn⟩ := Nat.exists_eq_succ_of_ne_zero (Nat.ne_of_gt k.length_segments_pos)
  rw [lookupKeys_eq, hn, placements, choices, List.map_cons, List.cons_append, List.map_cons,
    List.head?_cons]
  simp only [sourceAt, List.take_of_length_le (Nat.le_of_eq hn)]
  rfl

theorem getLast?_lookupKeys (k : SourceKey) : k.lookupKeys.getLast? = some k.query := by
  rw [lookupKeys_eq, List.getLast?_map, getLast?_placements k.length_segments_pos, Option.map_some]
  simp [sourceAt, SourceKey.segments, mask, Text.joinText, Text.join]

/-! ### Keys with a class -/

/-- The placements that keep all segments come first. -/
theorem filter_placements (n : Nat) :
    ((placements (n + 1)).map toPlacement).filter (·.1 = n + 1) =
      ((choices (n + 1)).map (Prod.mk (n + 1))).map toPlacement := by
  rw [placements, List.map_append, List.filter_append, List.filter_eq_self.2, List.filter_eq_nil_iff.2,
    List.append_nil]
  · intro place hplace
    obtain ⟨hpos, hle, -⟩ := mem_toPlacement.1 hplace
    simp only [decide_eq_true_eq]
    omega
  · intro place hplace
    simp only [List.map_map, List.mem_map, Function.comp_apply] at hplace
    obtain ⟨positions, -, rfl⟩ := hplace
    exact decide_eq_true rfl

/-- What is kept does not depend on what is given up. -/
theorem map_sourceAt_append (hn : n ≤ segments.length) (rest : List String) :
    (placements n).map (sourceAt (segments ++ rest)) = (placements n).map (sourceAt segments) := by
  refine List.map_congr_left fun ⟨len, positions⟩ hplace => ?_
  obtain ⟨-, hle, -⟩ := mem_placements.1 hplace
  rw [sourceAt, sourceAt, List.take_append_of_le_length (Nat.le_trans hle hn)]

/-- **The keys with the class come first**, and then those of the key without it. -/
theorem lookupKeys_of_class {k : SourceKey} (h : k.className ≠ "") {places : List Placement}
    (hplaces : Enumerates k.segments.length places) :
    k.lookupKeys = (places.filter (·.1 = 5)).map (placed k.segments) ++
      { k with className := "" }.lookupKeys := by
  have hsegments : k.segments = { k with className := "" }.segments ++ [k.className] := by
    simp [SourceKey.segments, h]
  have hlength : { k with className := "" }.segments.length = 4 := by simp [SourceKey.segments]
  have hlength' : k.segments.length = 5 := by rw [hsegments, List.length_append, hlength]; rfl
  rw [hlength'] at hplaces
  rw [(enumerates_placements 5).unique hplaces, filter_placements, lookupKeys_eq, lookupKeys_eq,
    hlength', hlength, placements, List.map_append, List.map_map, List.map_map, List.map_map]
  refine congrArg₂ (· ++ ·) ?_ ?_
  · exact List.map_congr_left fun positions _ => (placed_toPlacement _ (5, positions)).symm
  · rw [hsegments]
    exact map_sourceAt_append (Nat.le_of_eq hlength.symm) _

/-! ### The lookup keys -/

/-- **Every lookup key is in its place.**  There is one list of all placements in their order; the
lookup keys are the sources at these placements, and while they are made no segment is missing.  The
first is the key itself and the last its query; and a key with a class has the keys that keep the
class before those it would have without. -/
theorem lookupKeys_enumerate (k : SourceKey) :
    (∃ places, Enumerates k.segments.length places ∧
      (∀ others, Enumerates k.segments.length others → others = places) ∧
      k.lookupKeys = places.map (placed k.segments) ∧
      (k.className ≠ "" → k.lookupKeys = (places.filter (·.1 = 5)).map (placed k.segments) ++
        { k with className := "" }.lookupKeys)) ∧
      k.lookupKeys? = some k.lookupKeys ∧
      k.lookupKeys.head? = some k.render ∧ k.lookupKeys.getLast? = some k.query := by
  have hplaces := enumerates_placements k.segments.length
  refine ⟨⟨_, hplaces, fun others h => hplaces.unique h, lookupKeys_eq_map_placed hplaces,
    fun hclass => lookupKeys_of_class hclass hplaces⟩, ?_, ?_, ?_⟩
  · exact lookupKeys?_eq k
  · exact head?_lookupKeys k
  · exact getLast?_lookupKeys k

/-- A key with an empty segment, a wildcard and a separator in its segments. -/
def oddKey : SourceKey := ⟨"storage", "", "*", "name:space", "ssd"⟩

theorem lookupKeys_enumerate_odd : oddKey.className ≠ "" ∧
    ∃ places, Enumerates oddKey.segments.length places ∧
      oddKey.lookupKeys = (places.filter (·.1 = 5)).map (placed oddKey.segments) ++
        { oddKey with className := "" }.lookupKeys := by
  obtain ⟨⟨places, hplaces, -, -, hclass⟩, -⟩ := lookupKeys_enumerate oddKey
  exact ⟨by decide, places, hplaces, hclass (by decide)⟩

end SourceKey

end UsageBilling
