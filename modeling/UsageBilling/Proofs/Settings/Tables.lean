import UsageBilling.Settings

/-!
# Tables laid over each other

What a table holds for a name, after it is read from an object, put in order, or laid over another.

* `SettingValue.lookup_ofMembers?` : of the members of an object with one name, the last counts.
* `SettingValue.lookup_overlayEntries` : a table hides of the one under it what it has itself.
* `Settings.layer?_plain` : entries whose keys are no paths are laid over as a table.
-/

namespace UsageBilling

/-- The members of an object; anything else has none. -/
def Json.members : Json → List (JsonText × Json)
  | .object members => members
  | _ => []

/-- What an object has for a name: the last member of this name. -/
def Json.member? (j : Json) (name : String) : Option Json := j.members.reverse.lookup (some name)

variable {name key : String} {members : List (JsonText × Json)}
  {entries done : List (String × SettingValue)}

/-! ### Entries in order -/

theorem Settings.byName_perm {α : Type} (entries : List (String × α)) :
    (Settings.byName entries).Perm entries := List.mergeSort_perm _ _

theorem Settings.lookup_byName {α : Type} {entries : List (String × α)}
    (h : (entries.map Prod.fst).Nodup) (name : String) :
    (Settings.byName entries).lookup name = entries.lookup name :=
  (lookup_eq_of_perm (Settings.byName_perm entries).symm h name).symm

namespace SettingValue

variable {v : SettingValue}

/-! ### Reading an object -/

theorem mem_names_setEntry :
    key ∈ (setEntry name v entries).map Prod.fst ↔ key = name ∨ key ∈ entries.map Prod.fst := by
  induction entries with
  | nil => simp [setEntry]
  | cons entry rest ih =>
    obtain ⟨first, old⟩ := entry
    simp only [setEntry]
    split
    · next heq =>
      subst heq
      simp
    · rw [List.map_cons, List.mem_cons, ih, List.map_cons, List.mem_cons, or_left_comm]

/-- Setting an entry repeats no name. -/
theorem nodup_setEntry (h : (entries.map Prod.fst).Nodup) :
    ((setEntry name v entries).map Prod.fst).Nodup := by
  induction entries with
  | nil => simp [setEntry]
  | cons entry rest ih =>
    obtain ⟨first, old⟩ := entry
    obtain ⟨hfirst, hrest⟩ := List.nodup_cons.1 h
    simp only [setEntry]
    split
    · next heq =>
      subst heq
      exact List.nodup_cons.2 ⟨hfirst, hrest⟩
    · next hne =>
      refine List.nodup_cons.2 ⟨?_, ih hrest⟩
      rw [mem_names_setEntry]
      rintro (heq | hmem)
      · exact hne heq
      · exact hfirst hmem

/-- A member that is read comes into the entries. -/
theorem ofMembers?_cons {text : JsonText} {j : Json}
    (h : ofMembers? ((text, j) :: members) done = some entries) :
    ∃ key v, text = some key ∧ ofJson? j = some v ∧
      ofMembers? members (setEntry key v done) = some entries := by
  rw [ofMembers?.eq_def] at h
  simp only at h
  split at h
  · next key v hv => exact ⟨key, v, rfl, hv, h⟩
  · cases h

theorem nodup_ofMembers? (h : ofMembers? members done = some entries)
    (hdone : (done.map Prod.fst).Nodup) : (entries.map Prod.fst).Nodup := by
  induction members generalizing done with
  | nil =>
    rw [ofMembers?] at h
    obtain rfl := Option.some.inj h
    exact hdone
  | cons member rest ih =>
    obtain ⟨key, v, -, -, hrest⟩ := ofMembers?_cons h
    exact ih hrest (nodup_setEntry hdone)

/-- Every member of an object that is read has a value. -/
theorem isSome_of_mem_ofMembers? (h : ofMembers? members done = some entries) {text : JsonText}
    {j : Json} (hmem : (text, j) ∈ members) : (ofJson? j).isSome := by
  induction members generalizing done with
  | nil => cases hmem
  | cons member rest ih =>
    obtain ⟨key, v, -, hv, hrest⟩ := ofMembers?_cons h
    rcases List.mem_cons.1 hmem with rfl | hmem
    · rw [hv]
      rfl
    · exact ih hrest hmem

/-- **The last member of a name counts.** -/
theorem lookup_ofMembers? (h : ofMembers? members done = some entries) (name : String) :
    entries.lookup name =
      ((Json.object members).member? name).elim (done.lookup name) ofJson? := by
  simp only [Json.member?, Json.members]
  induction members generalizing done with
  | nil =>
    rw [ofMembers?] at h
    obtain rfl := Option.some.inj h
    rfl
  | cons member rest ih =>
    obtain ⟨text, j⟩ := member
    obtain ⟨key, v, rfl, hv, hrest⟩ := ofMembers?_cons h
    rw [ih hrest, List.reverse_cons, List.lookup_append, lookup_setEntry]
    cases rest.reverse.lookup (some name) with
    | some later => rfl
    | none =>
      rw [Option.none_or, lookup_cons_ite]
      by_cases hname : name = key
      · subst hname
        simp [hv]
      · simp [hname]

theorem mem_of_member? {j v : Json} (h : j.member? name = some v) : (some name, v) ∈ j.members := by
  obtain ⟨before, after, heq, -⟩ := List.lookup_eq_some_iff.1 h
  rw [← List.mem_reverse, heq]
  exact List.mem_append_right _ List.mem_cons_self

/-- The entries are those of an object: no name comes twice, and each has the value of its last
member. -/
structure IsTableOf (j : Json) (entries : List (String × SettingValue)) : Prop where
  nodup : (entries.map Prod.fst).Nodup
  lookup_eq : ∀ name, entries.lookup name = (j.member? name).bind ofJson?
  isSome : ∀ name v, j.member? name = some v → (ofJson? v).isSome

/-- **An object is read to a table** of its own entries. -/
theorem ofJson?_object (h : ofJson? (.object members) = some v) :
    ∃ entries, v = .table entries ∧ IsTableOf (.object members) entries := by
  rw [ofJson?] at h
  obtain ⟨entries, hentries, rfl⟩ := Option.map_eq_some_iff.1 h
  refine ⟨entries, rfl, nodup_ofMembers? hentries .nil, fun name => ?_, fun name v hv => ?_⟩
  · rw [lookup_ofMembers? hentries name]
    cases (Json.object members).member? name <;> rfl
  · exact isSome_of_mem_ofMembers? hentries (mem_of_member? hv)

/-! ### Laying over -/

@[simp] theorem entries_table (entries : List (String × SettingValue)) :
    (SettingValue.table entries).entries = entries := rfl

/-- **A table hides what is under it**, name by name. -/
theorem lookup_overlayEntries (h : (entries.map Prod.fst).Nodup) (old : SettingValue)
    (name : String) : (overlayEntries entries old).entries.lookup name =
      ((entries.lookup name).map fun v => v.overlay (old.entries.lookup name)).or
        (old.entries.lookup name) := by
  induction entries generalizing old with
  | nil => rfl
  | cons entry rest ih =>
    obtain ⟨first, v⟩ := entry
    obtain ⟨hfirst, hrest⟩ := List.nodup_cons.1 h
    rw [overlayEntries, ih hrest, entries_table, lookup_setEntry, lookup_cons_ite]
    by_cases hname : name = first
    · subst hname
      simp [lookup_eq_none_of_not_mem hfirst]
    · simp [hname]

/-- Over nothing, the values of a table are laid over nothing. -/
theorem lookup_overlayEntries_empty (h : (entries.map Prod.fst).Nodup) (name : String) :
    (overlayEntries entries (.table [])).entries.lookup name =
      (entries.lookup name).map fun v => v.overlay none := by
  rw [lookup_overlayEntries h, entries_table, List.lookup_nil, Option.or_none]

theorem overlay_none_table (entries : List (String × SettingValue)) :
    overlay (.table entries) none = overlayEntries entries (.table []) := by
  rw [overlay, Option.getD_none]

theorem exists_overlayEntries_table (entries done : List (String × SettingValue)) :
    ∃ all, overlayEntries entries (.table done) = .table all := by
  induction entries generalizing done with
  | nil => exact ⟨done, rfl⟩
  | cons entry rest ih =>
    rw [overlayEntries]
    exact ih _

end SettingValue

/-! ### Keys that are no paths -/

/-- The key is the name of one entry. -/
def SettingPath.IsPlain (key : String) : Prop := SettingPath.ofKey key = [.entry key]

instance (key : String) : Decidable (SettingPath.IsPlain key) := inferInstanceAs (Decidable (_ = _))

namespace Settings

/-- **Entries whose keys are no paths** are laid over a configuration as a table is. -/
theorem layer?_plain (h : ∀ entry ∈ entries, SettingPath.IsPlain entry.1)
    (config : SettingValue) :
    layer? entries config = some (SettingValue.overlayEntries (byName entries) config) := by
  have hplain : ∀ entry ∈ byName entries, SettingPath.IsPlain entry.1 := fun entry hmem =>
    h entry ((byName_perm entries).mem_iff.1 hmem)
  unfold layer?
  generalize byName entries = sorted at hplain
  induction sorted generalizing config with
  | nil => rfl
  | cons entry rest ih =>
    obtain ⟨key, v⟩ := entry
    have hkey : SettingPath.ofKey key = [.entry key] := hplain _ List.mem_cons_self
    rw [List.foldlM_cons]
    simp only [hkey, SettingValue.overlayEntries]
    exact ih _ fun entry hmem => hplain entry (List.mem_cons_of_mem _ hmem)

end Settings

end UsageBilling
