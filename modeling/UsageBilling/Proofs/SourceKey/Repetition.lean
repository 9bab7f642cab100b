import UsageBilling.Proofs.SourceKey.Enumeration
import UsageBilling.Proofs.SourceKey.Specificity

/-!
# When a lookup key comes twice

Two placements of wildcards make the same source only if a wildcard takes the place of a segment
that is one already.  Segments that are empty or alike do no harm: sources of different lengths
differ in their separators, and sources of one length where one has a wildcard and the other not.

* `SourceKey.eq_of_placed_eq` : a source tells its placement, unless an inner segment is a wildcard.
* `SourceKey.placed_insert_eq` : a wildcard in the place of a wildcard changes nothing.
* `SourceKey.nodup_lookupKeys_iff` : no lookup key comes twice just if no segment is a wildcard
  where one may be put.
-/

namespace UsageBilling

namespace SourceKey

variable {k : SourceKey} {raw : String} {segments : List String} {place other : Placement}

/-- A segment other than the first and the last is a wildcard. -/
def HasInnerWildcard (segments : List String) : Prop :=
  ∃ i, 0 < i ∧ i + 1 < segments.length ∧ segments[i]? = some wildcard

/-! ### A source tells its placement -/

/-- The segments that are kept, with the wildcards, are found again in the source. -/
theorem segmentsOf_placed (hsep : ∀ a ∈ segments, segmentSeparator ∉ a.toList)
    (hplace : IsPlacement segments.length place) :
    segmentsOf (placed segments place) =
      (segments.take place.1).mapIdx fun i segment => if i ∈ place.2 then wildcard else segment := by
  obtain ⟨hpos, hle, -⟩ := hplace
  have hne : segments.take place.1 ≠ [] := by
    rw [← List.length_pos_iff, List.length_take]
    omega
  exact segmentsOf_masked hne (fun a ha => hsep a (List.mem_of_mem_take ha)) (· ∈ place.2)

theorem getElem?_segmentsOf_placed (hsep : ∀ a ∈ segments, segmentSeparator ∉ a.toList)
    (hplace : IsPlacement segments.length place) {i : Nat} (hi : i < place.1) :
    (segmentsOf (placed segments place))[i]? =
      if i ∈ place.2 then some wildcard else segments[i]? := by
  have hlt : i < segments.length := Nat.lt_of_lt_of_le hi hplace.2.1
  rw [segmentsOf_placed hsep hplace, List.getElem?_mapIdx, List.getElem?_take_of_lt hi,
    List.getElem?_eq_getElem hlt, Option.map_some]
  split <;> rfl

/-- **A source tells its placement**, unless an inner segment is a wildcard already. -/
theorem eq_of_placed_eq (hsep : ∀ a ∈ segments, segmentSeparator ∉ a.toList)
    (hinner : ¬ HasInnerWildcard segments) (hplace : IsPlacement segments.length place)
    (hother : IsPlacement segments.length other)
    (heq : placed segments place = placed segments other) : place = other := by
  have hlength : place.1 = other.1 := by
    -- sources of different lengths have different numbers of separators
    have hpieces := congrArg (fun source => (segmentsOf source).length) heq
    simp only [segmentsOf_placed hsep hplace, segmentsOf_placed hsep hother, List.length_mapIdx,
      List.length_take] at hpieces
    have hle := hplace.2.1
    have hle' := hother.2.1
    omega
  refine Prod.ext hlength (Finset.ext fun i => ?_)
  have hbounds : ∀ {p : Placement}, IsPlacement segments.length p → i ∈ p.2 →
      0 < i ∧ i + 1 < p.1 := by
    intro p hp hi
    have := Finset.mem_Icc.1 (hp.2.2 hi)
    omega
  by_cases hin : 0 < i ∧ i + 1 < place.1
  · have hle := hplace.2.1
    have hbare : segments[i]? ≠ some wildcard := fun hw => hinner ⟨i, hin.1, by omega, hw⟩
    -- the sources agree in this segment, which is a wildcard only if it was put there
    have hsegment := congrArg (fun source => (segmentsOf source)[i]?) heq
    simp only [getElem?_segmentsOf_placed hsep hplace (show i < place.1 by omega),
      getElem?_segmentsOf_placed hsep hother (show i < other.1 by omega)] at hsegment
    by_cases hi : i ∈ place.2 <;> by_cases hi' : i ∈ other.2
    · exact iff_of_true hi hi'
    · rw [if_pos hi, if_neg hi'] at hsegment
      exact absurd hsegment.symm hbare
    · rw [if_neg hi, if_pos hi'] at hsegment
      exact absurd hsegment hbare
    · exact iff_of_false hi hi'
  · exact iff_of_false (fun hi => hin (hbounds hplace hi))
      (fun hi => hin (hlength ▸ hbounds hother hi))

/-! ### A wildcard for a wildcard -/

/-- **A wildcard in the place of a wildcard** changes nothing. -/
theorem placed_insert_eq {i : Nat} (hi : segments[i]? = some wildcard) (place : Placement) :
    placed segments (place.1, insert i place.2) = placed segments place := by
  refine congrArg (Text.joinText segmentSeparator) (List.ext_getElem? fun j => ?_)
  rw [List.getElem?_mapIdx, List.getElem?_mapIdx]
  by_cases hj : j < place.1
  · rw [List.getElem?_take_of_lt hj]
    by_cases hij : j = i
    · subst hij
      simp [hi]
    · simp [hij]
  · rw [List.getElem?_take_eq_none (Nat.le_of_not_lt hj)]
    rfl

/-! ### Keys that come twice -/

/-- **No lookup key comes twice** just if no inner segment is a wildcard. -/
theorem nodup_lookupKeys_iff (hsep : ∀ a ∈ k.segments, segmentSeparator ∉ a.toList) :
    k.lookupKeys.Nodup ↔ ¬ HasInnerWildcard k.segments := by
  have hplaces := enumerates_placements k.segments.length
  rw [lookupKeys_eq_map_placed hplaces, List.nodup_map_iff_inj_on hplaces.nodup]
  constructor
  · rintro hinj ⟨i, hpos, hlt, hi⟩
    -- the whole key, and the whole key with a wildcard in the place of that one
    have hwhole : IsPlacement k.segments.length (k.segments.length, ∅) :=
      ⟨by omega, Nat.le_refl _, Finset.empty_subset _⟩
    have hagain : IsPlacement k.segments.length (k.segments.length, insert i ∅) := by
      refine ⟨by omega, Nat.le_refl _, fun j hj => ?_⟩
      obtain rfl : j = i := by simpa using hj
      exact Finset.mem_Icc.2 ⟨hpos, by omega⟩
    have hsame := hinj _ ((hplaces.mem_iff _).2 hagain) _ ((hplaces.mem_iff _).2 hwhole)
      (placed_insert_eq hi (k.segments.length, ∅))
    have hsets := congrArg Prod.snd hsame
    exact Finset.insert_ne_empty i ∅ hsets
  · intro hinner place hplace other hother heq
    exact eq_of_placed_eq hsep hinner ((hplaces.mem_iff _).1 hplace) ((hplaces.mem_iff _).1 hother)
      heq

theorem hasInnerWildcard_iff_mem :
    HasInnerWildcard segments ↔ wildcard ∈ segments.tail.dropLast := by
  rw [List.mem_iff_getElem?]
  simp only [List.getElem?_dropLast, List.getElem?_tail, List.length_tail]
  constructor
  · rintro ⟨i, hpos, hlt, hi⟩
    refine ⟨i - 1, ?_⟩
    rw [if_pos (by omega), Nat.sub_add_cancel hpos, hi]
  · rintro ⟨i, hi⟩
    split at hi
    · next hlt => exact ⟨i + 1, by omega, by omega, hi⟩
    · cases hi

theorem hasInnerWildcard_segments_iff : HasInnerWildcard k.segments ↔
    k.zone = wildcard ∨ k.tenant = wildcard ∨ (k.className ≠ "" ∧ k.namespaceName = wildcard) := by
  rw [hasInnerWildcard_iff_mem]
  by_cases hclass : k.className = "" <;> simp [SourceKey.segments, hclass, eq_comm]

/-- **Lookup keys of a key that was read** are all different just if zone and tenant, and in front of
a class the namespace, are no wildcards.  Whether segments are empty or alike does not matter, nor
whether the query, the class or a namespace at the end is a wildcard. -/
theorem lookupKeys_distinct_iff (hparse : parse raw = .ok k) :
    k.lookupKeys.Nodup ↔ k.zone ≠ wildcard ∧ k.tenant ≠ wildcard ∧
      (k.className ≠ "" → k.namespaceName ≠ wildcard) := by
  rw [nodup_lookupKeys_iff (isKey_of_parse hparse).separator, hasInnerWildcard_segments_iff]
  simp only [not_or, not_and, ne_eq]

/-- A wildcard as query and as namespace, and two empty segments. -/
def emptyKey : SourceKey := ⟨"*", "", "", "*", ""⟩

/-- A wildcard as namespace in front of a class. -/
def wildNamespaceKey : SourceKey := ⟨"storage", "c", "acme", "*", "ssd"⟩

theorem lookupKeys_distinct_empty :
    (parse "*:::*" = .ok emptyKey ∧ emptyKey.lookupKeys.Nodup) ∧
      parse "storage:c:acme:*:ssd" = .ok wildNamespaceKey ∧ ¬ wildNamespaceKey.lookupKeys.Nodup := by
  have hempty : parse "*:::*" = .ok emptyKey := by decide
  have hwild : parse "storage:c:acme:*:ssd" = .ok wildNamespaceKey := by decide
  refine ⟨⟨hempty, (lookupKeys_distinct_iff hempty).2 ⟨by decide, by decide, fun h => ?_⟩⟩, hwild,
    fun hnodup => ?_⟩
  · exact absurd rfl h
  · exact ((lookupKeys_distinct_iff hwild).1 hnodup).2.2 (by decide) rfl

end SourceKey

end UsageBilling
