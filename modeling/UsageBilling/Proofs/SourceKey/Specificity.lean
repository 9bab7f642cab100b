import Mathlib
import UsageBilling.Proofs.SourceKey.Candidates

/-!
# The first match is a most specific one

A catalog is searched for the lookup keys of a source key in turn.  A source covers the keys that it
fits, and one source is more specific than another if it covers less.

* `SourceKey.pairwise_lookupKeys` : a lookup key has at most as many segments as those before it,
  and of as many segments at least as many wildcards.
* `SourceKey.not_ssubset_of_precedes` : what comes later covers no less.
* `SourceKey.first_match_most_specific` : the first match in a catalog is a most specific one.
-/

namespace UsageBilling

namespace SourceKey

variable {k k' : SourceKey} {raw : String} {segments : List String} {p q : String}

/-! ### What a source covers -/

/-- The segments of a source. -/
def segmentsOf (source : String) : List String := Text.splitText segmentSeparator source

/-- How many segments of a source are wildcards. -/
def wildcardCount (source : String) : Nat := (segmentsOf source).count wildcard

/-- The source is not longer than the key, and each of its segments is that of the key or a
wildcard. -/
def Covers (source : String) (k : SourceKey) : Prop :=
  (segmentsOf source).length ≤ k.segments.length ∧
    ∀ (i : Nat) a b, (segmentsOf source)[i]? = some a → k.segments[i]? = some b →
      a = b ∨ a = wildcard

/-- The keys that a source covers. -/
def coveredKeys (source : String) : Set SourceKey :=
  {k | (∃ raw, parse raw = .ok k) ∧ Covers source k}

/-! ### Keys from segments -/

/-- Segments that make a key: four, or five of which the last is not empty, without a separator. -/
structure IsKey (segments : List String) : Prop where
  length : segments.length = 4 ∨ (segments.length = 5 ∧ segments[4]? ≠ some "")
  separator : ∀ a ∈ segments, segmentSeparator ∉ a.toList

theorem isKey_of_parse (h : parse raw = .ok k) : IsKey k.segments := by
  have hpieces : ∀ a ∈ Text.splitText segmentSeparator raw, segmentSeparator ∉ a.toList :=
    fun a => Text.notMem_of_mem_splitText
  unfold parse at h
  split at h
  · next query zone tenant namespaceName hsplit =>
    cases h
    rw [hsplit] at hpieces
    exact ⟨.inl rfl, by simpa [SourceKey.segments] using hpieces⟩
  · next query zone tenant namespaceName className hsplit =>
    cases h
    rw [hsplit] at hpieces
    by_cases hclass : className = ""
    · subst hclass
      refine ⟨.inl rfl, fun a ha => hpieces a ?_⟩
      simp only [SourceKey.segments, if_true, List.append_nil] at ha
      simp only [List.mem_cons] at ha ⊢
      grind
    · refine ⟨.inr ?_, ?_⟩
      · simp [SourceKey.segments, hclass]
      · simpa [SourceKey.segments, hclass] using hpieces
  · cases h

/-- Every such list is that of a key. -/
theorem exists_parse (h : IsKey segments) : ∃ raw k, parse raw = .ok k ∧ k.segments = segments := by
  have hsplit : Text.splitText segmentSeparator (Text.joinText segmentSeparator segments) =
      segments := by
    refine Text.splitText_joinText ?_ h.separator
    rintro rfl
    rcases h.length with h | ⟨h, -⟩ <;> cases h
  refine ⟨Text.joinText segmentSeparator segments, ?_⟩
  unfold parse
  rw [hsplit]
  match segments, h.length with
  | [query, zone, tenant, namespaceName], _ =>
    exact ⟨_, rfl, rfl⟩
  | [query, zone, tenant, namespaceName, className], hlength =>
    refine ⟨_, rfl, ?_⟩
    have hclass : className ≠ "" := by simpa using hlength
    simp [SourceKey.segments, hclass]

/-! ### The segments of a candidate -/

/-- Segments that keep to a key, or have a wildcard, but not in the last place. -/
structure IsPattern (segments pattern : List String) : Prop where
  pos : 0 < pattern.length
  length_le : pattern.length ≤ segments.length
  eq_or_wild : ∀ i < pattern.length, pattern[i]? = segments[i]? ∨
    (pattern[i]? = some wildcard ∧ i + 1 < pattern.length)

theorem not_separator_wildcard : segmentSeparator ∉ wildcard.toList := by decide

/-- Segments with wildcards are found again in the source they make. -/
theorem segmentsOf_masked {bare : List String} (hne : bare ≠ [])
    (hsep : ∀ a ∈ bare, segmentSeparator ∉ a.toList) (wild : Nat → Prop) [DecidablePred wild] :
    segmentsOf (Text.joinText segmentSeparator
        (bare.mapIdx fun i segment => if wild i then wildcard else segment)) =
      bare.mapIdx fun i segment => if wild i then wildcard else segment := by
  refine Text.splitText_joinText ?_ fun a ha => ?_
  · rwa [ne_eq, List.mapIdx_eq_nil_iff]
  · obtain ⟨i, hi, rfl⟩ := List.mem_mapIdx.1 ha
    split
    · exact not_separator_wildcard
    · exact hsep _ (List.getElem_mem hi)

theorem Generalizes.isPattern (hkey : IsKey segments) (h : Generalizes segments p) :
    IsPattern segments (segmentsOf p) := by
  obtain ⟨bare, ⟨rest, rfl⟩, hne, wild, hwild, rfl⟩ := h
  have hpos : 0 < bare.length := List.length_pos_iff.2 hne
  have hsep : ∀ a ∈ bare, segmentSeparator ∉ a.toList :=
    fun a ha => hkey.separator a (List.mem_append_left _ ha)
  rw [segmentsOf_masked hne hsep (· ∈ wild)]
  refine ⟨?_, ?_, fun i hi => ?_⟩
  · rwa [List.length_mapIdx]
  · rw [List.length_mapIdx, List.length_append]
    omega
  · rw [List.length_mapIdx] at hi ⊢
    rw [List.getElem?_mapIdx, List.getElem?_append_left hi, List.getElem?_eq_getElem hi]
    by_cases hmem : i ∈ wild
    · exact .inr ⟨by simp [hmem], (hwild i hmem).2⟩
    · exact .inl (by simp [hmem])

/-- Wildcards add up. -/
theorem count_mask {bare : List String} {positions : List Nat} (hnodup : positions.Nodup)
    (hlt : ∀ i ∈ positions, i < bare.length) (hbare : ∀ i ∈ positions, bare[i]? ≠ some wildcard) :
    (mask bare positions).count wildcard = bare.count wildcard + positions.length := by
  induction positions generalizing bare with
  | nil => rfl
  | cons p positions ih =>
    obtain ⟨hp, hnodup⟩ := List.nodup_cons.1 hnodup
    have hplt := hlt p List.mem_cons_self
    have hpbare : bare[p] ≠ wildcard := by
      have hne := hbare p List.mem_cons_self
      rwa [List.getElem?_eq_getElem hplt, ne_eq, Option.some.injEq] at hne
    have hcount : (bare.set p wildcard).count wildcard = bare.count wildcard + 1 := by
      rw [List.count_set hplt]
      simp [hpbare]
    have hmask : mask bare (p :: positions) = mask (bare.set p wildcard) positions := rfl
    rw [hmask, ih hnodup, hcount, List.length_cons]
    · omega
    · intro i hi
      rw [List.length_set]
      exact hlt i (List.mem_cons_of_mem _ hi)
    · intro i hi
      have hne : p ≠ i := fun heq => hp (heq ▸ hi)
      rw [List.getElem?_set_ne hne]
      exact hbare i (List.mem_cons_of_mem _ hi)

/-- A candidate has as many segments and wildcards as its placement says. -/
theorem segments_sourceAt (hkey : IsKey segments) (hwild : wildcard ∉ segments)
    {place : Nat × List Nat} (h : place ∈ placements segments.length) :
    (segmentsOf (sourceAt segments place)).length = place.1 ∧
      wildcardCount (sourceAt segments place) = place.2.length := by
  obtain ⟨len, positions⟩ := place
  obtain ⟨hpos, hle, hsub⟩ := mem_placements.1 h
  have hlength : (segments.take len).length = len := by
    rw [List.length_take, Nat.min_eq_left hle]
  have hpieces : segmentsOf (sourceAt segments (len, positions)) =
      mask (segments.take len) positions := by
    have hne : segments.take len ≠ [] := by
      rw [← List.length_pos_iff, hlength]
      omega
    rw [sourceAt, mask_eq_mapIdx]
    exact segmentsOf_masked hne (fun a ha => hkey.separator a (List.mem_of_mem_take ha)) _
  have hnone : wildcard ∉ segments.take len := fun hmem => hwild (List.mem_of_mem_take hmem)
  refine ⟨by rw [hpieces, mask_eq_mapIdx, List.length_mapIdx, hlength], ?_⟩
  rw [wildcardCount, hpieces, count_mask, List.count_eq_zero.2 hnone, Nat.zero_add]
  · exact hsub.nodup List.nodup_range'
  · intro i hi
    have := (mem_inner.1 (hsub.subset hi)).2
    omega
  · intro i _ hi
    exact hnone (List.mem_of_getElem? hi)

/-! ### The order of the candidates -/

/-- More segments, or as many and not more wildcards. -/
def Precedes (p q : String) : Prop :=
  (segmentsOf q).length < (segmentsOf p).length ∨
    ((segmentsOf q).length = (segmentsOf p).length ∧ wildcardCount p ≤ wildcardCount q)

/-- **Lookup keys come by length and then by wildcards.** -/
theorem pairwise_lookupKeys (hkey : IsKey k.segments) (hwild : wildcard ∉ k.segments) :
    k.lookupKeys.Pairwise Precedes := by
  rw [lookupKeys_eq, List.pairwise_map]
  refine (pairwise_placements _).imp_of_mem fun {a b} ha hb hab => ?_
  obtain ⟨halength, hawild⟩ := segments_sourceAt hkey hwild ha
  obtain ⟨hblength, hbwild⟩ := segments_sourceAt hkey hwild hb
  rw [Precedes, halength, hblength, hawild, hbwild]
  refine hab.imp_right fun ⟨hlength, hcount⟩ => ⟨hlength, ?_⟩
  rcases hcount with hfewer | ⟨hsame, -⟩
  · exact Nat.le_of_lt hfewer
  · exact Nat.le_of_eq hsame

/-! ### What comes later covers no less -/

/-- Another segment in one place. -/
theorem IsKey.set (h : IsKey segments) (i : Nat) {a : String} (ha : segmentSeparator ∉ a.toList)
    (hne : a ≠ "") : IsKey (segments.set i a) where
  length := by
    rw [List.length_set]
    refine h.length.imp_right fun ⟨hlength, hlast⟩ => ⟨hlength, ?_⟩
    by_cases hi : i = 4
    · subst hi
      simp [hlength, hne]
    · rwa [List.getElem?_set_ne hi]
  separator := fun b hb => by
    rcases List.mem_or_eq_of_mem_set hb with hb | rfl
    · exact h.separator b hb
    · exact ha

/-- There is a segment other than a given one. -/
theorem exists_other (a : String) : ∃ b : String, b ≠ a ∧ b ≠ "" ∧ segmentSeparator ∉ b.toList := by
  by_cases h : a = "x"
  · subst h
    exact ⟨"y", by decide, by decide, by decide⟩
  · exact ⟨"x", Ne.symm h, by decide, by decide⟩

/-- Where a source covers no more than another, it keeps to the key wherever that does. -/
theorem keeps_of_subset (hkey : IsKey segments) (hp : IsPattern segments (segmentsOf p))
    (hq : IsPattern segments (segmentsOf q)) (hsub : coveredKeys q ⊆ coveredKeys p) {i : Nat}
    (hi : i < (segmentsOf p).length) (hbare : (segmentsOf p)[i]? ≠ some wildcard) :
    i < (segmentsOf q).length ∧ (segmentsOf q)[i]? ≠ some wildcard := by
  by_contra hnot
  have hlt : i < segments.length := Nat.lt_of_lt_of_le hi hp.length_le
  obtain ⟨b, hother, hnonempty, hsep⟩ := exists_other segments[i]
  -- a key that differs from this one in the place is covered by the one source, not by the other
  obtain ⟨raw, k, hparse, hk⟩ := exists_parse (hkey.set i hsep hnonempty)
  have hcovers : Covers q k := by
    refine ⟨?_, fun j c d hc hd => ?_⟩
    · rw [hk, List.length_set]
      exact hq.length_le
    · have hj : j < (segmentsOf q).length := (List.getElem?_eq_some_iff.1 hc).1
      by_cases hij : i = j
      · subst hij
        refine .inr (Option.some.inj (hc.symm.trans ?_))
        by_contra hne
        exact hnot ⟨hj, hne⟩
      · rw [hk, List.getElem?_set_ne hij] at hd
        rcases hq.eq_or_wild j hj with heq | ⟨hwild, -⟩
        · exact .inl (Option.some.inj (hc.symm.trans (heq.trans hd)))
        · exact .inr (Option.some.inj (hc.symm.trans hwild))
  obtain ⟨-, -, hsegments⟩ := hsub ⟨⟨raw, hparse⟩, hcovers⟩
  rcases hp.eq_or_wild i hi with heq | ⟨hwild, -⟩
  · rw [List.getElem?_eq_getElem hlt] at heq
    have hchanged : k.segments[i]? = some b := by
      rw [hk, List.getElem?_set_self hlt]
    rcases hsegments i _ _ heq hchanged with heq' | hwild
    · exact hother heq'.symm
    · exact hbare (heq.trans (congrArg some hwild))
  · exact hbare hwild

/-- Segments that differ only where the first have a wildcard and the second have not. -/
theorem eq_of_count_le {as bs : List String}
    (h : List.Forall₂ (fun a b => a = b ∨ (a = wildcard ∧ b ≠ wildcard)) as bs) :
    bs.count wildcard ≤ as.count wildcard ∧
      (as.count wildcard ≤ bs.count wildcard → as = bs) := by
  induction h with
  | nil => exact ⟨Nat.le_refl _, fun _ => rfl⟩
  | @cons a b as bs hab _ ih =>
    obtain ⟨hle, heq⟩ := ih
    rcases hab with rfl | ⟨rfl, hb⟩
    · simp only [List.count_cons]
      refine ⟨by omega, fun hcount => ?_⟩
      rw [heq (by omega)]
    · rw [List.count_cons_self, List.count_cons_of_ne hb]
      exact ⟨by omega, by omega⟩

/-- **What comes later covers no less.** -/
theorem not_ssubset_of_precedes (hkey : IsKey segments) (hwild : wildcard ∉ segments)
    (hp : IsPattern segments (segmentsOf p)) (hq : IsPattern segments (segmentsOf q))
    (hprecedes : Precedes p q) : ¬ coveredKeys q ⊂ coveredKeys p := by
  rintro ⟨hsub, hnot⟩
  have hkeeps := fun i => keeps_of_subset (i := i) hkey hp hq hsub
  have hlast : (segmentsOf p).length ≤ (segmentsOf q).length := by
    -- the last segment is no wildcard
    have hpos := hp.pos
    have hlt : (segmentsOf p).length - 1 < (segmentsOf q).length := by
      refine (hkeeps _ (by omega) fun hw => ?_).1
      rcases hp.eq_or_wild _ (show (segmentsOf p).length - 1 < _ by omega) with heq | ⟨-, hlt⟩
      · exact hwild (List.mem_of_getElem? (heq.symm.trans hw))
      · omega
    omega
  rcases hprecedes with hshorter | ⟨hlength, hcount⟩
  · omega
  · have hforall : List.Forall₂ (fun a b => a = b ∨ (a = wildcard ∧ b ≠ wildcard))
        (segmentsOf p) (segmentsOf q) := by
      refine List.forall₂_iff_get.2 ⟨hlength.symm, fun i hi hi' => ?_⟩
      rw [List.get_eq_getElem, List.get_eq_getElem]
      by_cases hpw : (segmentsOf p)[i] = wildcard
      · by_cases hqw : (segmentsOf q)[i] = wildcard
        · exact .inl (hpw.trans hqw.symm)
        · exact .inr ⟨hpw, hqw⟩
      · have hpbare : (segmentsOf p)[i]? ≠ some wildcard := by simpa [hi] using hpw
        have hqbare := (hkeeps i hi hpbare).2
        have hpkeeps := (hp.eq_or_wild i hi).resolve_right fun h => hpbare h.1
        have hqkeeps := (hq.eq_or_wild i hi').resolve_right fun h => hqbare h.1
        rw [List.getElem?_eq_getElem hi] at hpkeeps
        rw [List.getElem?_eq_getElem hi'] at hqkeeps
        exact .inl (Option.some.inj (hpkeeps.trans hqkeeps.symm))
    have hsame : segmentsOf p = segmentsOf q := (eq_of_count_le hforall).2 hcount
    refine hnot fun k hk => ?_
    rwa [coveredKeys, Set.mem_ofPred_eq, Covers, ← hsame]

/-! ### The first match -/

/-- What is found first stands in the order before whatever else could be found. -/
theorem rel_of_find? {α : Type} {R : α → α → Prop} {l : List α} {test : α → Bool} {a b : α}
    (h : l.Pairwise R) (hfind : l.find? test = some a) (hb : b ∈ l) (htest : test b) :
    a = b ∨ R a b := by
  obtain ⟨-, before, after, rfl, hbefore⟩ := List.find?_eq_some_iff_append.1 hfind
  rcases List.mem_append.1 hb with hmem | hmem
  · have hfails := hbefore b hmem
    rw [htest] at hfails
    cases hfails
  · rcases List.mem_cons.1 hmem with rfl | hmem
    · exact .inl rfl
    · exact .inr (List.rel_of_pairwise_cons (List.pairwise_append.1 h).2.1 hmem)

/-- **The first match is a most specific one.**  For a key without wildcards and any catalog, one of
the lookup keys is in the catalog exactly if the catalog has a generalization of the key; and of all
generalizations in it none is strictly more specific than the first match, none has more segments,
and none of as many segments has fewer wildcards. -/
theorem first_match_most_specific (hparse : parse raw = .ok k) (hwild : wildcard ∉ k.segments)
    (catalog : Set String) [DecidablePred (· ∈ catalog)] :
    ((k.lookupKeys.find? (· ∈ catalog)).isSome ↔ ∃ p ∈ catalog, Generalizes k.segments p) ∧
      ∀ first, k.lookupKeys.find? (· ∈ catalog) = some first →
        first ∈ catalog ∧ Generalizes k.segments first ∧
          ∀ p ∈ catalog, Generalizes k.segments p →
            ¬ coveredKeys p ⊂ coveredKeys first ∧
              (segmentsOf p).length ≤ (segmentsOf first).length ∧
              ((segmentsOf p).length = (segmentsOf first).length →
                wildcardCount first ≤ wildcardCount p) := by
  have hkey : IsKey k.segments := isKey_of_parse hparse
  constructor
  · rw [List.find?_isSome]
    constructor
    · rintro ⟨p, hp, hin⟩
      exact ⟨p, of_decide_eq_true hin, mem_lookupKeys_iff.1 hp⟩
    · rintro ⟨p, hin, hp⟩
      exact ⟨p, mem_lookupKeys_iff.2 hp, decide_eq_true hin⟩
  · intro first hfind
    have hfirst : Generalizes k.segments first :=
      mem_lookupKeys_iff.1 (List.mem_of_find?_eq_some hfind)
    have hmember := (List.find?_eq_some_iff_append.1 hfind).1
    refine ⟨of_decide_eq_true hmember, hfirst, fun p hin hp => ?_⟩
    have hprecedes : Precedes first p := by
      have horder := pairwise_lookupKeys hkey hwild
      rcases rel_of_find? horder hfind (mem_lookupKeys_iff.2 hp) (decide_eq_true hin) with rfl | h
      · exact .inr ⟨rfl, Nat.le_refl _⟩
      · exact h
    refine ⟨not_ssubset_of_precedes hkey hwild (hfirst.isPattern hkey) (hp.isPattern hkey)
      hprecedes, ?_, ?_⟩
    · rcases hprecedes with h | h <;> omega
    · intro hlength
      rcases hprecedes with h | ⟨-, h⟩
      · omega
      · exact h

/-- A key with a class. -/
def classKey : SourceKey := ⟨"storage", "c", "acme", "namespace", "ssd"⟩

/-- Sources of prices, of which four fit `classKey`. -/
def prices : List String :=
  ["storage", "storage:c", "storage:*:*:namespace", "storage:c:*:namespace", "storage:c:acme:*:hdd",
    "storage:c:acme:namespace:*"]

/-- The catalog with these prices. -/
def priceCatalog : Set String := {source | source ∈ prices}

instance : DecidablePred (· ∈ priceCatalog) := fun source =>
  inferInstanceAs (Decidable (source ∈ prices))

theorem first_match_most_specific_class :
    parse "storage:c:acme:namespace:ssd" = .ok classKey ∧ wildcard ∉ classKey.segments ∧
      classKey.lookupKeys.find? (· ∈ priceCatalog) = some "storage:c:*:namespace" ∧
      ((classKey.lookupKeys.find? (· ∈ priceCatalog)).isSome ↔
        ∃ p ∈ priceCatalog, Generalizes classKey.segments p) ∧
      ∀ first, classKey.lookupKeys.find? (· ∈ priceCatalog) = some first →
        first ∈ priceCatalog ∧ Generalizes classKey.segments first ∧
          ∀ p ∈ priceCatalog, Generalizes classKey.segments p →
            ¬ coveredKeys p ⊂ coveredKeys first ∧
              (segmentsOf p).length ≤ (segmentsOf first).length ∧
              ((segmentsOf p).length = (segmentsOf first).length →
                wildcardCount first ≤ wildcardCount p) :=
  ⟨by decide, by decide, by decide +kernel,
    first_match_most_specific (by decide : parse "storage:c:acme:namespace:ssd" = .ok classKey)
      (by decide) priceCatalog⟩

end SourceKey

end UsageBilling
