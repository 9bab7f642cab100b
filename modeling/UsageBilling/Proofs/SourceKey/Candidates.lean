import Mathlib.Data.Finset.Dedup
import UsageBilling.SourceKey

/-!
# The candidates of a source key

Which sources `SourceKey.lookupKeys` lists, and in which order, for segments of any text.

* `SourceKey.placements n` : the lengths and wildcard positions of the candidates of a key with `n`
  segments, in order; `SourceKey.lookupKeys_eq` says that these are the lookup keys.
* `SourceKey.mem_placements` : every start of the key, with wildcards at any positions but the first
  and the last.
* `SourceKey.pairwise_placements` : longer before shorter, of one length fewer wildcards before more,
  and of as many the later positions before the earlier.
* `SourceKey.mem_lookupKeys_iff` : the lookup keys are the generalizations of the key.
-/

namespace UsageBilling

/-- The selections are the sublists of the given length. -/
theorem mem_selections {α : Type} {xs ys : List α} {k : Nat} :
    ys ∈ selections xs k ↔ ys.Sublist xs ∧ ys.length = k := by
  induction xs generalizing ys k with
  | nil =>
    cases k with
    | zero => simp
    | succ k =>
      rw [selections_nil_succ, List.sublist_nil]
      constructor
      · intro h
        cases h
      · rintro ⟨rfl, h⟩
        cases h
  | cons x xs ih =>
    cases k with
    | zero =>
      rw [selections_zero, List.mem_singleton, List.length_eq_zero_iff]
      constructor
      · rintro rfl
        exact ⟨List.nil_sublist _, rfl⟩
      · exact And.right
    | succ k =>
      rw [selections_cons_succ, List.mem_append, List.mem_map, ih]
      constructor
      · rintro (⟨zs, hzs, rfl⟩ | ⟨hsub, hlength⟩)
        · obtain ⟨hsub, hlength⟩ := ih.1 hzs
          exact ⟨hsub.cons_cons x, congrArg Nat.succ hlength⟩
        · exact ⟨hsub.cons x, hlength⟩
      · rintro ⟨hsub, hlength⟩
        -- the first element is taken or left
        cases hsub with
        | cons _ hrest => exact .inr ⟨hrest, hlength⟩
        | cons_cons _ hrest => exact .inl ⟨_, ih.2 ⟨hrest, Nat.succ.inj hlength⟩, rfl⟩

/-- Selections from ascending numbers come in lexicographic order. -/
theorem pairwise_selections {xs : List Nat} (h : xs.Pairwise (· < ·)) (k : Nat) :
    (selections xs k).Pairwise (· < ·) := by
  induction xs generalizing k with
  | nil => cases k <;> simp
  | cons x xs ih =>
    obtain ⟨hfirst, hrest⟩ := List.pairwise_cons.1 h
    cases k with
    | zero => simp
    | succ k =>
      rw [selections_cons_succ, List.pairwise_append, List.pairwise_map]
      refine ⟨(ih hrest k).imp fun hlt => List.cons_lt_cons_iff.2 (.inr ⟨rfl, hlt⟩), ih hrest _, ?_⟩
      intro a ha b hb
      obtain ⟨a, -, rfl⟩ := List.mem_map.1 ha
      obtain ⟨hsub, hlength⟩ := mem_selections.1 hb
      -- what leaves the first number out starts with a later one
      cases b with
      | nil => cases hlength
      | cons y b => exact List.cons_lt_cons_iff.2 (.inl (hfirst y (hsub.subset List.mem_cons_self)))

namespace SourceKey

variable {n len : Nat} {segments bare : List String} {positions : List Nat}

/-! ### Placements of wildcards -/

/-- The positions that may be wildcards while the first `len` segments are kept: all but the first
and the last. -/
def inner (len : Nat) : List Nat := List.range' 1 (len - 2)

/-- The choices of wildcard positions among the first `len` segments. -/
def choices (len : Nat) : List (List Nat) :=
  [] :: (List.range (inner len).length).flatMap fun k => (selections (inner len) (k + 1)).reverse

/-- The lengths of the candidates of a key with `n` segments, with their wildcard positions. -/
def placements : (n : Nat) → List (Nat × List Nat)
  | 0 => []
  | n + 1 => (choices (n + 1)).map (Prod.mk (n + 1)) ++ placements n

/-- The source with the first segments of a key and wildcards in their place. -/
def sourceAt (segments : List String) (place : Nat × List Nat) : String :=
  Text.joinText segmentSeparator (mask (segments.take place.1) place.2)

theorem inner_dropLast (n : Nat) :
    (if n + 1 > 2 then (inner (n + 1)).dropLast else inner (n + 1)) = inner n := by
  unfold inner
  split
  · next h =>
    have hlast : List.range' 1 (n + 1 - 2) = List.range' 1 (n - 2) ++ [n - 1] := by
      rw [show n + 1 - 2 = n - 2 + 1 by omega, List.range'_concat,
        show 1 + 1 * (n - 2) = n - 1 by omega]
    rw [hlast, List.dropLast_concat]
  · rw [show n + 1 - 2 = n - 2 by omega]

theorem keysUpToLength_eq (segments : List String) (n : Nat) :
    keysUpToLength segments (inner n) n = (placements n).map (sourceAt segments) := by
  induction n with
  | zero => rfl
  | succ n ih =>
    rw [keysUpToLength, inner_dropLast, ih, placements, List.map_append, List.map_map]
    rfl

/-- **The lookup keys** have their wildcards where `placements` says. -/
theorem lookupKeys_eq (k : SourceKey) :
    k.lookupKeys = (placements k.segments.length).map (sourceAt k.segments) := by
  rw [← keysUpToLength_eq]
  unfold lookupKeys segments
  by_cases h : k.className = "" <;> simp [h, inner, List.range']

theorem mem_choices : positions ∈ choices len ↔ positions.Sublist (inner len) := by
  unfold choices
  rw [List.mem_cons, List.mem_flatMap]
  constructor
  · rintro (rfl | ⟨k, -, hk⟩)
    · exact List.nil_sublist _
    · exact (mem_selections.1 (List.mem_reverse.1 hk)).1
  · intro hsub
    cases hlength : positions.length with
    | zero => exact .inl (List.length_eq_zero_iff.1 hlength)
    | succ k =>
      have hle : k + 1 ≤ (inner len).length := hlength ▸ hsub.length_le
      exact .inr ⟨k, List.mem_range.2 hle, List.mem_reverse.2 (mem_selections.2 ⟨hsub, hlength⟩)⟩

/-- **Every start of the key, with wildcards anywhere inside**, is a candidate. -/
theorem mem_placements :
    (len, positions) ∈ placements n ↔ 1 ≤ len ∧ len ≤ n ∧ positions.Sublist (inner len) := by
  induction n with
  | zero =>
    rw [placements]
    constructor
    · intro h
      cases h
    · rintro ⟨hpos, hle, -⟩
      omega
  | succ n ih =>
    rw [placements, List.mem_append, List.mem_map, ih]
    constructor
    · rintro (⟨_, hchoice, heq⟩ | ⟨hpos, hle, hsub⟩)
      · obtain ⟨rfl, rfl⟩ := Prod.mk.inj heq
        exact ⟨by omega, by omega, mem_choices.1 hchoice⟩
      · exact ⟨hpos, by omega, hsub⟩
    · rintro ⟨hpos, hle, hsub⟩
      by_cases hlast : len = n + 1
      · subst hlast
        exact .inl ⟨positions, mem_choices.2 hsub, rfl⟩
      · exact .inr ⟨hpos, by omega, hsub⟩

theorem pairwise_inner (len : Nat) : (inner len).Pairwise (· < ·) := List.pairwise_lt_range'

/-- Of one length, fewer wildcards come first, and of as many the later positions. -/
theorem pairwise_choices (len : Nat) :
    (choices len).Pairwise fun a b => a.length < b.length ∨ (a.length = b.length ∧ b < a) := by
  have hsize : ∀ k, ∀ a ∈ (selections (inner len) (k + 1)).reverse, a.length = k + 1 :=
    fun k a ha => (mem_selections.1 (List.mem_reverse.1 ha)).2
  unfold choices
  refine List.pairwise_cons.2 ⟨fun b hb => .inl ?_, List.pairwise_flatMap.2 ⟨?_, ?_⟩⟩
  · obtain ⟨k, -, hb⟩ := List.mem_flatMap.1 hb
    rw [hsize k b hb]
    exact Nat.succ_pos k
  · intro k _
    -- what comes in order is taken from its end
    have hlex := List.pairwise_reverse.2 (pairwise_selections (pairwise_inner len) (k + 1))
    refine hlex.imp_of_mem fun {a b} ha hb hlt => .inr ⟨?_, hlt⟩
    rw [hsize k a ha, hsize k b hb]
  · refine List.pairwise_lt_range.imp fun {i j} hij a ha b hb => .inl ?_
    rw [hsize i a ha, hsize j b hb]
    omega

/-- **Longer before shorter**, of one length fewer wildcards before more, and of as many wildcards
the later positions before the earlier. -/
theorem pairwise_placements (n : Nat) :
    (placements n).Pairwise fun a b =>
      b.1 < a.1 ∨ (b.1 = a.1 ∧ (a.2.length < b.2.length ∨
        (a.2.length = b.2.length ∧ b.2 < a.2))) := by
  induction n with
  | zero => exact .nil
  | succ n ih =>
    refine List.pairwise_append.2 ⟨?_, ih, ?_⟩
    · rw [List.pairwise_map]
      exact (pairwise_choices (n + 1)).imp fun h => .inr ⟨rfl, h⟩
    · rintro a ha ⟨len, positions⟩ hb
      obtain ⟨_, -, rfl⟩ := List.mem_map.1 ha
      obtain ⟨-, hle, -⟩ := mem_placements.1 hb
      exact .inl (Nat.lt_succ_of_le hle)

/-! ### Generalizations -/

/-- The source is a start of the segments, in which some positions, but neither the first nor the
last, have a wildcard instead. -/
def Generalizes (segments : List String) (source : String) : Prop :=
  ∃ bare, bare <+: segments ∧ bare ≠ [] ∧ ∃ wild : Finset Nat,
    (∀ i ∈ wild, 0 < i ∧ i + 1 < bare.length) ∧
      source = Text.joinText segmentSeparator
        (bare.mapIdx fun i segment => if i ∈ wild then wildcard else segment)

theorem getElem?_mask (bare : List String) (positions : List Nat) (i : Nat) :
    (mask bare positions)[i]? =
      if i ∈ positions then bare[i]?.map fun _ => wildcard else bare[i]? := by
  induction positions generalizing bare with
  | nil => simp [mask]
  | cons p positions ih =>
    have hmask : mask bare (p :: positions) = mask (bare.set p wildcard) positions := rfl
    rw [hmask, ih]
    by_cases hp : p = i
    · subst hp
      by_cases hlt : p < bare.length <;> simp [hlt]
    · simp [List.getElem?_set_ne hp, Ne.symm hp]

theorem mask_eq_mapIdx (bare : List String) (positions : List Nat) :
    mask bare positions =
      bare.mapIdx fun i segment => if i ∈ positions then wildcard else segment := by
  refine List.ext_getElem? fun i => ?_
  rw [getElem?_mask, List.getElem?_mapIdx]
  split
  · rfl
  · simp

theorem mem_inner {i : Nat} : i ∈ inner len ↔ 0 < i ∧ i + 1 < len := by
  rw [inner, List.mem_range'_1]
  omega

/-- **The lookup keys are the generalizations of the key.** -/
theorem mem_lookupKeys_iff {k : SourceKey} {source : String} :
    source ∈ k.lookupKeys ↔ Generalizes k.segments source := by
  rw [lookupKeys_eq, List.mem_map]
  constructor
  · rintro ⟨⟨len, positions⟩, hplace, rfl⟩
    obtain ⟨hpos, hle, hsub⟩ := mem_placements.1 hplace
    have hlength : (k.segments.take len).length = len := by
      rw [List.length_take, Nat.min_eq_left hle]
    refine ⟨k.segments.take len, List.take_prefix _ _, ?_, positions.toFinset, ?_, ?_⟩
    · intro hnil
      rw [hnil, List.length_nil] at hlength
      omega
    · intro i hi
      rw [hlength]
      exact mem_inner.1 (hsub.subset (List.mem_toFinset.1 hi))
    · simp only [sourceAt, mask_eq_mapIdx, List.mem_toFinset]
  · rintro ⟨bare, hprefix, hne, wild, hwild, rfl⟩
    refine ⟨(bare.length, (inner bare.length).filter (· ∈ wild)), mem_placements.2 ⟨?_, ?_, ?_⟩, ?_⟩
    · exact List.length_pos_iff.2 hne
    · exact hprefix.length_le
    · exact List.filter_sublist
    · have hmem : ∀ i, i ∈ (inner bare.length).filter (· ∈ wild) ↔ i ∈ wild := by
        intro i
        rw [List.mem_filter, decide_eq_true_iff]
        exact ⟨And.right, fun hi => ⟨mem_inner.2 (hwild i hi), hi⟩⟩
      rw [sourceAt, ← List.prefix_iff_eq_take.1 hprefix, mask_eq_mapIdx]
      simp only [hmem]

end SourceKey

end UsageBilling
