import UsageBilling.SourceKey

/-!
# The text of a source key

Reading and writing undo each other, up to a separator behind four segments: it is read as an empty
class, and an empty class is not written.

* `SourceKey.parse_eq_ok_iff` : a key is read from its segments, and from all its fields.
* `SourceKey.exists_parse_iff` : a text is a key just if it has three or four separators.
* `SourceKey.parse_render_eq_ok_iff` : reading undoes writing just where no field holds a separator.
* `SourceKey.parse_render_exact` : both directions for all texts and all keys.
-/

namespace UsageBilling.SourceKey

variable {k : SourceKey} {s t : String}

/-! ### Segments and fields -/

/-- How many separators a text holds. -/
def separatorCount (s : String) : Nat := s.toList.count segmentSeparator

/-- All five fields, the class even if it is empty. -/
def fields (k : SourceKey) : List String :=
  [k.query, k.zone, k.tenant, k.namespaceName, k.className]

theorem fields_eq (k : SourceKey) :
    k.fields = k.segments ∨ (k.className = "" ∧ k.fields = k.segments ++ [""]) := by
  by_cases h : k.className = "" <;> simp [fields, segments, h]

/-- **A key is read from its segments**, and from all its fields. -/
theorem parse_eq_ok_iff : parse s = .ok k ↔
    Text.splitText segmentSeparator s = k.segments ∨
      Text.splitText segmentSeparator s = k.fields := by
  obtain ⟨query, zone, tenant, namespaceName, className⟩ := k
  unfold parse
  split
  · next hsplit =>
    rw [hsplit]
    by_cases h : className = "" <;> simp [segments, fields, h, eq_comm]
  · next hsplit =>
    rw [hsplit]
    by_cases h : className = "" <;> simp [segments, fields, h, eq_comm]
  · next hfour hfive =>
    by_cases h : className = ""
    · simpa [segments, fields, h] using ⟨hfour _ _ _ _, hfive _ _ _ _ _⟩
    · simpa [segments, fields, h] using hfive _ _ _ _ _

/-- **A text is a key just if it has three or four separators.** -/
theorem exists_parse_iff :
    (∃ k, parse s = .ok k) ↔ separatorCount s = 3 ∨ separatorCount s = 4 := by
  have hlength : (Text.splitText segmentSeparator s).length = separatorCount s + 1 :=
    Text.length_splitText segmentSeparator s
  constructor
  · rintro ⟨k, hk⟩
    rcases parse_eq_ok_iff.1 hk with hsplit | hsplit
    · rw [hsplit, segments] at hlength
      by_cases h : k.className = "" <;> simp [h] at hlength <;> omega
    · rw [hsplit] at hlength
      exact .inr (Nat.succ.inj hlength).symm
  · rintro (hcount | hcount) <;> rw [hcount] at hlength <;> unfold parse
    · match Text.splitText segmentSeparator s, hlength with
      | [_, _, _, _], _ => exact ⟨_, rfl⟩
    · match Text.splitText segmentSeparator s, hlength with
      | [_, _, _, _, _], _ => exact ⟨_, rfl⟩

/-- Any other text is told of with the number of its segments. -/
theorem eq_of_parse_eq_error {e : SegmentCountError} (h : parse s = .error e) :
    e = ⟨s, separatorCount s + 1⟩ := by
  unfold parse at h
  split at h
  · cases h
  · cases h
  · cases h
    rw [Text.length_splitText]
    rfl

/-! ### From text and back -/

theorem notMem_fields_of_parse (h : parse s = .ok k) :
    ∀ field ∈ k.fields, segmentSeparator ∉ field.toList := by
  have hpieces : ∀ field ∈ k.fields,
      field = "" ∨ field ∈ Text.splitText segmentSeparator s := by
    intro field hfield
    rcases parse_eq_ok_iff.1 h with hsplit | hsplit
    · rw [hsplit]
      rcases fields_eq k with heq | ⟨-, heq⟩
      · exact .inr (heq ▸ hfield)
      · rw [heq, List.mem_append, List.mem_singleton] at hfield
        exact hfield.symm
    · exact .inr (hsplit ▸ hfield)
  intro field hfield
  rcases hpieces field hfield with rfl | hpiece
  · simp
  · exact Text.notMem_of_mem_splitText hpiece

/-- Reading undoes writing just where no field holds a separator. -/
theorem parse_render_eq_ok_iff :
    parse k.render = .ok k ↔ ∀ field ∈ k.fields, segmentSeparator ∉ field.toList := by
  refine ⟨notMem_fields_of_parse, fun h => parse_eq_ok_iff.2 (.inl ?_)⟩
  refine Text.splitText_joinText (by simp [segments]) fun field hfield => h field ?_
  rcases fields_eq k with heq | ⟨-, heq⟩
  · exact heq ▸ hfield
  · exact heq ▸ List.mem_append_left _ hfield

/-! ### Texts of one key -/

/-- The text has five segments, the last of them empty. -/
def HasEmptyClass (s : String) : Prop :=
  ∃ four : List String, four.length = 4 ∧ Text.splitText segmentSeparator s = four ++ [""]

/-- The texts are equal up to a separator behind four segments. -/
def SameKeyText (s t : String) : Prop :=
  s = t ∨ (HasEmptyClass s ∧ s = t.push segmentSeparator) ∨
    (HasEmptyClass t ∧ t = s.push segmentSeparator)

theorem not_hasEmptyClass_of_segments
    (h : Text.splitText segmentSeparator s = k.segments) : ¬ HasEmptyClass s := by
  rintro ⟨four, hfour, hsplit⟩
  rw [h, segments] at hsplit
  by_cases hclass : k.className = ""
  · have hlength := congrArg List.length hsplit
    simp [hclass, hfour] at hlength
  · have hlast := congrArg List.getLast? hsplit
    simp [hclass] at hlast

/-- Writing gives back the text that was read, but for a separator in front of an empty class. -/
theorem eq_render_of_parse (h : parse s = .ok k) :
    (¬ HasEmptyClass s ∧ s = k.render) ∨ (HasEmptyClass s ∧ s = k.render.push segmentSeparator) := by
  have hwhole := Text.joinText_splitText segmentSeparator s
  have hsegments : Text.splitText segmentSeparator s = k.segments →
      ¬ HasEmptyClass s ∧ s = k.render :=
    fun hsplit => ⟨not_hasEmptyClass_of_segments hsplit, by rw [← hwhole, hsplit, render]⟩
  rcases parse_eq_ok_iff.1 h with hsplit | hsplit
  · exact .inl (hsegments hsplit)
  · rcases fields_eq k with heq | ⟨hclass, heq⟩
    · exact .inl (hsegments (hsplit.trans heq))
    · refine .inr ⟨⟨k.segments, by simp [segments, hclass], hsplit.trans heq⟩, ?_⟩
      rw [← hwhole, hsplit, heq, Text.joinText_concat_empty _ (by simp [segments]), render]

/-- **A separator behind four segments does not change the key.** -/
theorem parse_push (hfour : separatorCount s = 3) :
    parse (s.push segmentSeparator) = parse s := by
  obtain ⟨k, hk⟩ := exists_parse_iff.2 (.inl hfour)
  have hlength : (Text.splitText segmentSeparator s).length = 4 := by
    rw [Text.length_splitText]
    exact congrArg (· + 1) hfour
  have hsegments : Text.splitText segmentSeparator s = k.segments := by
    refine (parse_eq_ok_iff.1 hk).resolve_right fun hsplit => ?_
    rw [hsplit] at hlength
    cases hlength
  have hfields : k.fields = k.segments ++ [""] := by
    rcases fields_eq k with heq | ⟨-, heq⟩
    · rw [hsegments, ← heq] at hlength
      cases hlength
    · exact heq
  rw [hk]
  refine parse_eq_ok_iff.2 (.inr ?_)
  rw [Text.splitText_push, hsegments, hfields]

theorem separatorCount_eq_three (h : HasEmptyClass (s.push segmentSeparator)) :
    separatorCount s = 3 := by
  obtain ⟨four, hfour, hsplit⟩ := h
  have hlength := congrArg List.length hsplit
  rw [Text.splitText_push, List.length_append, List.length_append, Text.length_splitText,
    hfour] at hlength
  exact Nat.succ.inj (Nat.succ.inj hlength)

/-- **Two texts are the same key just if they are equal up to that separator.** -/
theorem parse_eq_ok_iff_sameKeyText (h : parse s = .ok k) :
    parse t = .ok k ↔ SameKeyText s t := by
  constructor
  · intro ht
    rcases eq_render_of_parse h with ⟨-, hs⟩ | ⟨hempty, hs⟩ <;>
      rcases eq_render_of_parse ht with ⟨-, ht⟩ | ⟨hempty', ht⟩
    · exact .inl (hs.trans ht.symm)
    · exact .inr (.inr ⟨hempty', by rw [ht, hs]⟩)
    · exact .inr (.inl ⟨hempty, by rw [ht, hs]⟩)
    · exact .inl (hs.trans ht.symm)
  · rintro (rfl | ⟨hempty, rfl⟩ | ⟨hempty, rfl⟩)
    · exact h
    · rwa [parse_push (separatorCount_eq_three hempty)] at h
    · rwa [parse_push (separatorCount_eq_three hempty)]

/-- **Keys and their texts determine each other.**  A text is a key just if it has four or five
segments; what is read has no separator in a field and is written as the text it was read from, but
for a separator in front of an empty class; and a key is read again just if no field of it holds a
separator. -/
theorem parse_render_exact (s t : String) (k : SourceKey) :
    ((∃ k, parse s = .ok k) ↔ separatorCount s = 3 ∨ separatorCount s = 4) ∧
      ((¬ ∃ k, parse s = .ok k) → parse s = .error ⟨s, separatorCount s + 1⟩) ∧
      (parse s = .ok k →
        (∀ field ∈ k.fields, segmentSeparator ∉ field.toList) ∧
          ((¬ HasEmptyClass s ∧ k.render = s) ∨
            (HasEmptyClass s ∧ k.render.push segmentSeparator = s)) ∧
          (parse t = .ok k ↔ SameKeyText s t)) ∧
      (parse k.render = .ok k ↔ ∀ field ∈ k.fields, segmentSeparator ∉ field.toList) ∧
      ((∀ field ∈ k.fields, segmentSeparator ∉ field.toList) →
        ∃ k', parse k.render = .ok k' ∧ k'.lookupKeys = k.lookupKeys) := by
  refine ⟨exists_parse_iff, fun hnone => ?_, fun h => ⟨notMem_fields_of_parse h, ?_,
    parse_eq_ok_iff_sameKeyText h⟩, parse_render_eq_ok_iff, fun h => ?_⟩
  · cases hparse : parse s with
    | ok k => exact absurd ⟨k, hparse⟩ hnone
    | error e => rw [eq_of_parse_eq_error hparse]
  · exact (eq_render_of_parse h).imp (And.imp_right Eq.symm) (And.imp_right Eq.symm)
  · exact ⟨k, parse_render_eq_ok_iff.2 h, rfl⟩

/-- A separator in a field can make the text that of another key. -/
example : parse (render ⟨"memory:c", "acme", "namespace", "pod", ""⟩) =
    .ok ⟨"memory", "c", "acme", "namespace", "pod"⟩ := rfl

end UsageBilling.SourceKey
