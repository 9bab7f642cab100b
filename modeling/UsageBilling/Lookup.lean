/-!
# Looking up a key

Entries are pairs of a key and a value; the first entry of a key counts.  Without repeated keys
every entry does, in any order.
-/

namespace UsageBilling

/-- The first entry decides for its own key. -/
theorem lookup_cons_ite {α β : Type} [BEq α] [LawfulBEq α] [DecidableEq α] (key first : α) (v : β)
    (rest : List (α × β)) :
    ((first, v) :: rest).lookup key = if key = first then some v else rest.lookup key := by
  rw [List.lookup_cons]
  by_cases h : key = first
  · simp [h]
  · simp [h, beq_eq_false_iff_ne.2 h]

theorem lookup_eq_none_of_not_mem {α β : Type} [DecidableEq α] {entries : List (α × β)} {key : α}
    (h : key ∉ entries.map Prod.fst) : entries.lookup key = none :=
  List.lookup_eq_none_iff.2 fun entry hmem =>
    bne_iff_ne.2 fun heq => h (List.mem_map.2 ⟨entry, hmem, heq.symm⟩)

theorem lookup_eq_some_iff_of_nodup {α β : Type} [DecidableEq α] {entries : List (α × β)}
    (h : (entries.map Prod.fst).Nodup) {key : α} {value : β} :
    entries.lookup key = some value ↔ (key, value) ∈ entries := by
  induction entries with
  | nil => simp
  | cons entry rest ih =>
    obtain ⟨first, old⟩ := entry
    obtain ⟨hfirst, hrest⟩ := List.nodup_cons.1 h
    rw [lookup_cons_ite, List.mem_cons, Prod.mk.injEq]
    by_cases hkey : key = first
    · subst hkey
      have hnot : (key, value) ∉ rest := fun hmem => hfirst (List.mem_map.2 ⟨_, hmem, rfl⟩)
      simp [hnot, eq_comm]
    · simp [hkey, ih hrest]

/-- Without repetitions the order of the entries does not matter. -/
theorem lookup_eq_of_perm {α β : Type} [DecidableEq α] {entries entries' : List (α × β)}
    (hperm : entries.Perm entries') (h : (entries.map Prod.fst).Nodup) (key : α) :
    entries.lookup key = entries'.lookup key := by
  have h' : (entries'.map Prod.fst).Nodup := (hperm.map Prod.fst).nodup_iff.1 h
  refine Option.ext fun value => ?_
  rw [lookup_eq_some_iff_of_nodup h, lookup_eq_some_iff_of_nodup h', hperm.mem_iff]

end UsageBilling
