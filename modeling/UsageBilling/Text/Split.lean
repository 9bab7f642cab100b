/-!
# Text cut at a separator

`split sep cs` is the list of pieces of `cs` between occurrences of `sep`, `join sep ps` puts
pieces back together.  `join_split` says that cutting loses nothing, `split_join` that pieces
without the separator are found again, and `length_split` counts the pieces.  `splitText` and
`joinText` do the same to texts.
-/

namespace UsageBilling.Text

/-- The pieces between separators, one more than there are separators. -/
def split (sep : Char) : List Char → List (List Char)
  | [] => [[]]
  | c :: cs =>
    if c = sep then [] :: split sep cs
    else
      match split sep cs with
      | [] => [[c]]
      | piece :: pieces => (c :: piece) :: pieces

/-- The pieces with one separator between neighbours. -/
def join (sep : Char) : List (List Char) → List Char
  | [] => []
  | [piece] => piece
  | piece :: next :: rest => piece ++ sep :: join sep (next :: rest)

/-- `split` on strings. -/
def splitText (sep : Char) (s : String) : List String := (split sep s.toList).map String.ofList

/-- `join` on strings. -/
def joinText (sep : Char) (pieces : List String) : String :=
  String.ofList (join sep (pieces.map String.toList))

/-- Every occurrence of the non-empty `pattern`, read from the left, becomes `replacement`. -/
def replaceAll (pattern replacement : List Char) (cs : List Char) : List Char :=
  go cs 0
where
  /-- `skip` characters still belong to an occurrence already replaced. -/
  go : List Char → Nat → List Char
    | [], _ => []
    | _ :: rest, skip + 1 => go rest skip
    | c :: rest, 0 =>
      if pattern.isPrefixOf (c :: rest) then replacement ++ go rest (pattern.length - 1)
      else c :: go rest 0

theorem split_ne_nil (sep : Char) (cs : List Char) : split sep cs ≠ [] := by
  cases cs with
  | nil => simp [split]
  | cons c cs =>
    simp only [split]
    split
    · simp
    · split <;> simp

theorem join_cons_cons (sep : Char) (piece next : List Char) (rest : List (List Char)) :
    join sep (piece :: next :: rest) = piece ++ sep :: join sep (next :: rest) := rfl

theorem join_cons_head (sep c : Char) (piece : List Char) (rest : List (List Char)) :
    join sep ((c :: piece) :: rest) = c :: join sep (piece :: rest) := by
  cases rest <;> simp [join]

/-- An empty piece at the end leaves a separator behind. -/
theorem join_concat_nil (sep : Char) {pieces : List (List Char)} (hne : pieces ≠ []) :
    join sep (pieces ++ [[]]) = join sep pieces ++ [sep] := by
  induction pieces with
  | nil => exact absurd rfl hne
  | cons piece rest ih =>
    cases rest with
    | nil => simp [join]
    | cons next rest =>
      have hrest := ih (by simp)
      rw [List.cons_append] at hrest
      simp [join_cons_cons, hrest]

/-- Cutting loses nothing. -/
theorem join_split (sep : Char) (cs : List Char) : join sep (split sep cs) = cs := by
  induction cs with
  | nil => rfl
  | cons c cs ih =>
    simp only [split]
    split
    · next h =>
      cases hs : split sep cs with
      | nil => exact absurd hs (split_ne_nil sep cs)
      | cons piece pieces => rw [hs] at ih; simp [join, ih, h]
    · split
      · next hs => exact absurd hs (split_ne_nil sep cs)
      · next piece pieces hs => rw [join_cons_head, ← hs, ih]

/-- A piece without the separator is cut off whole. -/
theorem split_append {sep : Char} {piece : List Char} (h : sep ∉ piece) (cs : List Char) :
    split sep (piece ++ sep :: cs) = piece :: split sep cs := by
  induction piece with
  | nil => simp [split]
  | cons c piece ih =>
    simp only [List.mem_cons, not_or] at h
    simp [split, Ne.symm h.1, ih h.2]

theorem split_of_notMem {sep : Char} {piece : List Char} (h : sep ∉ piece) :
    split sep piece = [piece] := by
  induction piece with
  | nil => rfl
  | cons c piece ih =>
    simp only [List.mem_cons, not_or] at h
    simp [split, Ne.symm h.1, ih h.2]

/-- Pieces without the separator are found again. -/
theorem split_join {sep : Char} {pieces : List (List Char)} (hne : pieces ≠ [])
    (h : ∀ piece ∈ pieces, sep ∉ piece) : split sep (join sep pieces) = pieces := by
  induction pieces with
  | nil => exact absurd rfl hne
  | cons piece rest ih =>
    cases rest with
    | nil => simpa [join] using split_of_notMem (h piece (by simp))
    | cons next rest =>
      rw [join_cons_cons, split_append (h piece (by simp)),
        ih (by simp) fun p hp => h p (List.mem_cons_of_mem _ hp)]

theorem splitText_joinText {sep : Char} {pieces : List String} (hne : pieces ≠ [])
    (h : ∀ piece ∈ pieces, sep ∉ piece.toList) : splitText sep (joinText sep pieces) = pieces := by
  have hlists : split sep (join sep (pieces.map String.toList)) = pieces.map String.toList := by
    refine split_join (by simpa using hne) fun piece hpiece => ?_
    obtain ⟨text, htext, rfl⟩ := List.mem_map.1 hpiece
    exact h text htext
  simp [splitText, joinText, hlists, Function.comp_def]

/-- No piece holds the separator. -/
theorem notMem_of_mem_split {sep : Char} {cs piece : List Char} (h : piece ∈ split sep cs) :
    sep ∉ piece := by
  induction cs generalizing piece with
  | nil => simp_all [split]
  | cons c cs ih =>
    simp only [split] at h
    split at h
    · rcases List.mem_cons.1 h with rfl | h
      · simp
      · exact ih h
    · next hc =>
      split at h
      · next hs => exact absurd hs (split_ne_nil sep cs)
      · next first others hs =>
        rcases List.mem_cons.1 h with rfl | h
        · simp only [List.mem_cons, not_or]
          exact ⟨fun he => hc he.symm, ih (hs ▸ List.mem_cons_self ..)⟩
        · exact ih (hs ▸ List.mem_cons_of_mem _ h)

/-- There is one piece more than there are separators. -/
theorem length_split (sep : Char) (cs : List Char) :
    (split sep cs).length = cs.count sep + 1 := by
  induction cs with
  | nil => rfl
  | cons c cs ih =>
    simp only [split]
    split
    · next h => simp [h, ih]
    · next h =>
      split
      · next hs => exact absurd hs (split_ne_nil sep cs)
      · next piece pieces hs =>
        rw [hs] at ih
        simpa [List.count_cons, h] using ih

/-! ### Texts -/

/-- Cutting a text loses nothing. -/
theorem joinText_splitText (sep : Char) (s : String) : joinText sep (splitText sep s) = s := by
  simp [joinText, splitText, Function.comp_def, join_split]

/-- A text has one piece more than separators. -/
theorem length_splitText (sep : Char) (s : String) :
    (splitText sep s).length = s.toList.count sep + 1 := by
  rw [splitText, List.length_map, length_split]

/-- No piece of a text holds the separator. -/
theorem notMem_of_mem_splitText {sep : Char} {s piece : String} (h : piece ∈ splitText sep s) :
    sep ∉ piece.toList := by
  obtain ⟨cs, hcs, rfl⟩ := List.mem_map.1 h
  rw [String.toList_ofList]
  exact notMem_of_mem_split hcs

/-- An empty piece at the end leaves a separator behind. -/
theorem joinText_concat_empty (sep : Char) {pieces : List String} (hne : pieces ≠ []) :
    joinText sep (pieces ++ [""]) = (joinText sep pieces).push sep := by
  have hnonempty : pieces.map String.toList ≠ [] := by simpa using hne
  have hlists := join_concat_nil sep hnonempty
  apply String.ext
  simp [joinText, hlists]

/-- A separator at the end leaves an empty piece behind. -/
theorem splitText_push (sep : Char) (s : String) :
    splitText sep (s.push sep) = splitText sep s ++ [""] := by
  have hne : splitText sep s ≠ [] := by simp [splitText, split_ne_nil]
  have hpush : joinText sep (splitText sep s ++ [""]) = s.push sep := by
    rw [joinText_concat_empty sep hne, joinText_splitText]
  rw [← hpush]
  refine splitText_joinText (by simp) fun piece hpiece => ?_
  rcases List.mem_append.1 hpiece with hpiece | hpiece
  · exact notMem_of_mem_splitText hpiece
  · rw [List.mem_singleton.1 hpiece]
    simp

end UsageBilling.Text
