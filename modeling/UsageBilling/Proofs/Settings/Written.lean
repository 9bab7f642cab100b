import UsageBilling.Proofs.Settings.Layers

/-!
# A value that is written for one setting

What one variable of the environment, or one member of the file, says for a setting gets to it, if
no other key leads into the same entry.  Nothing is asked of the values of the other keys, and of
the file nothing at all if the environment has the value.

* `SettingPath.Spares` : a path that leads past the entry of a setting.
* `Settings.valueAt?_of_setByVariable`, `Settings.exists_valueAt?_of_setByFile` : the entry of a
  setting behind a layer that has a value for it.
* `Settings.read?_of_setByVariable`, `Settings.read?_of_setByFile` : the setting that is loaded is
  what that value converts to.
-/

namespace UsageBilling

open Settings SettingValue

/-- The path leads to another section, or to another entry of the same section. -/
inductive SettingPath.Spares (s : Setting) : List SettingStep → Prop
  | elsewhere {name : String} {rest : List SettingStep} : name ≠ s.sectionName →
      Spares s (.entry name :: rest)
  | beside {name : String} {rest : List SettingStep} : name ≠ s.fieldName →
      Spares s (.entry s.sectionName :: .entry name :: rest)

namespace Settings

variable {s : Setting} {config config' v : SettingValue} {path : List SettingStep}
  {entries : List (String × SettingValue)} {environment : List (String × String)}
  {file : SettingsFile} {cfg : Settings} {text : String}

/-! ### Laying entries over a configuration -/

/-- **A value put elsewhere** leaves the entry of a setting as it is. -/
theorem valueAt?_of_spares (h : SettingPath.Spares s path)
    (hput : v.put? path (some config) = some config') :
    valueAt? config' s = valueAt? config s := by
  cases h with
  | elsewhere hname =>
    rw [SettingValue.put?] at hput
    obtain ⟨inner, -, hset⟩ := Option.bind_eq_some_iff.1 hput
    obtain rfl := Option.some.inj hset
    rw [valueAt?, entries_table, lookup_setEntry, if_neg hname.symm]
    rfl
  | beside hname =>
    rw [SettingValue.put?] at hput
    obtain ⟨inner, hinner, hset⟩ := Option.bind_eq_some_iff.1 hput
    rw [SettingValue.put?] at hinner
    obtain ⟨inmost, -, hset'⟩ := Option.bind_eq_some_iff.1 hinner
    obtain rfl := Option.some.inj hset
    obtain rfl := Option.some.inj hset'
    rw [valueAt?, entries_table, lookup_setEntry, if_pos rfl, Option.bind_some, entries_table,
      lookup_setEntry, if_neg hname.symm, valueAt?, Option.getD_some]
    cases config.entries.lookup s.sectionName <;> rfl

/-- All keys lead past the entry of the setting. -/
def AllSpare (s : Setting) (entries : List (String × SettingValue)) : Prop :=
  ∀ entry ∈ entries, SettingPath.Spares s (SettingPath.ofKey entry.1)

theorem valueAt?_of_foldlM (h : AllSpare s entries)
    (hfold : entries.foldlM (fun config (key, v) => v.put? (SettingPath.ofKey key) (some config))
      config = some config') : valueAt? config' s = valueAt? config s := by
  induction entries generalizing config with
  | nil => rw [Option.some.inj hfold]
  | cons entry rest ih =>
    rw [List.foldlM_cons] at hfold
    obtain ⟨next, hput, hrest⟩ := Option.bind_eq_some_iff.1 hfold
    rw [ih (fun entry hmem => h entry (List.mem_cons_of_mem _ hmem)) hrest]
    exact valueAt?_of_spares (h entry List.mem_cons_self) hput

/-- **Entries that all lead elsewhere** leave the entry of a setting as it is. -/
theorem valueAt?_of_layer? (h : AllSpare s entries) (hlayer : layer? entries config = some config') :
    valueAt? config' s = valueAt? config s :=
  valueAt?_of_foldlM (fun entry hmem => h entry ((byName_perm entries).mem_iff.1 hmem)) hlayer

theorem pairwise_byName (entries : List (String × SettingValue)) :
    (byName entries).Pairwise fun entry entry' => entry.1 ≤ entry'.1 := by
  have hsorted := @List.pairwise_mergeSort (String × SettingValue)
    (fun entry entry' => decide (entry.1 ≤ entry'.1))
    (fun a b c hab hbc => decide_eq_true (String.le_trans (of_decide_eq_true hab)
      (of_decide_eq_true hbc)))
    (fun a b => by simpa using String.le_total a.1 b.1) entries
  exact hsorted.imp fun h => of_decide_eq_true h

/-- The keys that come behind the given one in their order lead past the entry of the setting. -/
def SpareBehind (s : Setting) (key : String) (entries : List (String × SettingValue)) : Prop :=
  ∀ entry ∈ entries, key ≤ entry.1 → SettingPath.Spares s (SettingPath.ofKey entry.1)

/-- **The last entry that leads to a setting decides about it**, whatever comes before it. -/
theorem valueAt?_of_layer?_perm {key : String} {others : List (String × SettingValue)}
    {value : SettingValue} (hperm : entries.Perm ((key, v) :: others))
    (h : SpareBehind s key others)
    (hput : ∀ {config config'}, v.put? (SettingPath.ofKey key) (some config) = some config' →
      valueAt? config' s = some value) (hlayer : layer? entries config = some config') :
    valueAt? config' s = some value := by
  have hsorted : (byName entries).Perm ((key, v) :: others) := (byName_perm entries).trans hperm
  have hordered := pairwise_byName entries
  obtain ⟨before, after, heq⟩ := List.append_of_mem (hsorted.mem_iff.2 List.mem_cons_self)
  rw [heq] at hsorted hordered
  have hafter : AllSpare s after := by
    intro entry hmem
    have hothers := (List.perm_middle.symm.trans hsorted).cons_inv.mem_iff.1
      (List.mem_append_right _ hmem)
    have hbehind := (List.pairwise_append.1 hordered).2.1
    exact h entry hothers ((List.pairwise_cons.1 hbehind).1 entry hmem)
  rw [layer?, heq, List.foldlM_append] at hlayer
  obtain ⟨middle, -, hrest⟩ := Option.bind_eq_some_iff.1 hlayer
  rw [List.foldlM_cons] at hrest
  obtain ⟨next, hnext, hfold⟩ := Option.bind_eq_some_iff.1 hrest
  rw [valueAt?_of_foldlM hafter hfold]
  exact hput hnext

/-! ### What the environment says -/

/-- The variables set nothing of the setting. -/
def Untouched (environment : List (String × String)) (s : Setting) : Prop :=
  AllSpare s (environment.filterMap entryOfVariable?)

/-- One variable with the key of the setting has the text, and none behind it sets anything of
it. -/
def SetByVariable (environment : List (String × String)) (s : Setting) (text : String) : Prop :=
  ∃ name others, environment.Perm ((name, text) :: others) ∧ keyOfVariable? name = some s.key ∧
    SpareBehind s s.key (others.filterMap entryOfVariable?)

/-- **The variable of a setting decides about it**, whatever the file says. -/
theorem valueAt?_of_setByVariable (h : SetByVariable environment s text)
    (hlayer : layer? (ofEnvironment environment) config = some config') :
    valueAt? config' s = some (.text text) := by
  obtain ⟨name, others, hperm, hname, hothers⟩ := h
  have hset : entryOfVariable? (name, text) = some (s.key, .text text) := by
    rw [entryOfVariable?, hname, Option.map_some]
  have hentries := (ofEnvironment_perm environment).trans (hperm.filterMap entryOfVariable?)
  rw [List.filterMap_cons_some hset] at hentries
  refine valueAt?_of_layer?_perm hentries hothers (fun {config config'} hput => ?_) hlayer
  obtain ⟨config'', hput', hvalue, -⟩ := exists_put?_key s text config
  obtain rfl := Option.some.inj (hput'.symm.trans hput)
  rw [hvalue, if_pos rfl]

theorem valueAt?_of_untouched (h : Untouched environment s)
    (hlayer : layer? (ofEnvironment environment) config = some config') :
    valueAt? config' s = valueAt? config s :=
  valueAt?_of_layer? (fun entry hmem => h entry ((ofEnvironment_perm environment).mem_iff.1 hmem))
    hlayer

/-! ### What the file says -/

/-- The members whose names come behind a key in their order lead past the entry of the setting. -/
def MembersSpare (s : Setting) (key : String) (file : Json) : Prop :=
  ∀ name j, (some name, j) ∈ file.members → key ≤ name → name ≠ key →
    SettingPath.Spares s (SettingPath.ofKey name)

/-- The file has the value for the setting: under its name in its section, or under its key. -/
inductive SetByFile (s : Setting) (j : Json) : Json → Prop
  | nested {file members : List (JsonText × Json)} :
      (Json.object file).member? s.sectionName = some (.object members) →
      (Json.object members).member? s.fieldName = some j →
      MembersSpare s s.sectionName (.object file) → SetByFile s j (.object file)
  | dotted {file : List (JsonText × Json)} : (Json.object file).member? s.key = some j →
      MembersSpare s s.key (.object file) → SetByFile s j (.object file)

theorem ofKey_sectionName (s : Setting) :
    SettingPath.ofKey s.sectionName = [.entry s.sectionName] := by
  cases s <;> decide

/-- One member of an object among its entries. -/
theorem exists_perm_of_member? {members : List (JsonText × Json)} {key : String} {j : Json}
    (htable : IsTableOf (.object members) entries)
    (hmember : (Json.object members).member? key = some j)
    (hspare : MembersSpare s key (.object members)) :
    ∃ v others, ofJson? j = some v ∧ entries.Perm ((key, v) :: others) ∧
      SpareBehind s key others := by
  obtain ⟨v, hv⟩ := Option.isSome_iff_exists.1 (htable.isSome key j hmember)
  have hlookup : entries.lookup key = some v := by
    rw [htable.lookup_eq, hmember, Option.bind_some, hv]
  have hnodup := htable.nodup
  obtain ⟨before, after, heq, -⟩ := List.lookup_eq_some_iff.1 hlookup
  subst heq
  refine ⟨v, before ++ after, hv, List.perm_middle, fun entry hmem hle => ?_⟩
  have hentry : entry ∈ before ++ (key, v) :: after :=
    List.perm_middle.mem_iff.2 (List.mem_cons_of_mem _ hmem)
  have hname := (lookup_eq_some_iff_of_nodup hnodup).2 hentry
  rw [htable.lookup_eq] at hname
  obtain ⟨j', hj', -⟩ := Option.bind_eq_some_iff.1 hname
  refine hspare entry.1 j' (mem_of_member? hj') hle fun heq => ?_
  rw [(List.perm_middle.map Prod.fst).nodup_iff, List.map_cons] at hnodup
  exact (List.nodup_cons.1 hnodup).1 (List.mem_map.2 ⟨entry, hmem, heq⟩)

/-- The value is no table, so nothing under it shows through. -/
def Hides (v : SettingValue) : Prop := ∀ old, v.overlay old = v

/-- **The member of the file decides about the setting**, whatever its other members are. -/
theorem exists_valueAt?_of_setByFile {j content : Json} {value : SettingValue}
    (h : SetByFile s j content) (hcontent : ofJson? content = some value) :
    ∃ v, ofJson? j = some v ∧ (Hides v → ∀ config,
      layer? value.entries (.table []) = some config → valueAt? config s = some v) := by
  cases h with
  | nested hsection hfield hspare =>
    obtain ⟨entries, rfl, htable⟩ := ofJson?_object hcontent
    obtain ⟨table, others, htable', hperm, hothers⟩ :=
      exists_perm_of_member? htable hsection hspare
    obtain ⟨fields, rfl, hfields⟩ := ofJson?_object htable'
    obtain ⟨v, hv⟩ := Option.isSome_iff_exists.1 (hfields.isSome _ _ hfield)
    refine ⟨v, hv, fun hhides config hlayer => ?_⟩
    refine valueAt?_of_layer?_perm hperm hothers (fun {config config'} hput => ?_) hlayer
    rw [ofKey_sectionName, SettingValue.put?, SettingValue.put?] at hput
    obtain rfl := Option.some.inj hput
    have hlookup : fields.lookup s.fieldName = some v := by
      rw [hfields.lookup_eq, hfield, Option.bind_some, hv]
    rw [valueAt?, entries_table, lookup_setEntry, if_pos rfl, Option.bind_some, overlay,
      lookup_overlayEntries hfields.nodup, hlookup, Option.map_some, hhides, Option.some_or]
  | dotted hmember hspare =>
    obtain ⟨entries, rfl, htable⟩ := ofJson?_object hcontent
    obtain ⟨v, others, hv, hperm, hothers⟩ := exists_perm_of_member? htable hmember hspare
    refine ⟨v, hv, fun hhides config hlayer => ?_⟩
    refine valueAt?_of_layer?_perm hperm hothers (fun {config config'} hput => ?_) hlayer
    rw [Setting.ofKey_key] at hput
    obtain rfl := Option.some.inj hput
    rw [valueAt?, entries_table, lookup_setEntry, if_pos rfl, Option.bind_some, entries_table,
      lookup_setEntry, if_pos rfl, hhides]

/-! ### What the entry converts to -/

theorem exists_section_of_valueAt? (h : valueAt? config s = some v) :
    ∃ entries, (∀ names, sectionOf? s.sectionName names config = some entries) ∧
      entries.lookup s.fieldName = some v := by
  obtain ⟨value, hvalue, hentry⟩ := Option.bind_eq_some_iff.1 h
  cases value with
  | table entries => exact ⟨entries, fun names => by rw [sectionOf?, hvalue], hentry⟩
  | _ => cases hentry

/-- **A setting is what its entry converts to.** -/
theorem read?_of_ofConfig? (h : ofConfig? config = some cfg) (hv : valueAt? config s = some v) :
    s.read? v = some (s.get cfg) := by
  obtain ⟨entries, hsection, hentry⟩ := exists_section_of_valueAt? hv
  simp only [ofConfig?, Option.bind_eq_bind, Option.bind_eq_some_iff, Option.some.injEq] at h
  obtain ⟨database, hdatabase, prometheus, hprometheus, log, hlog, url, hurl, connections,
    hconnections, acquire, hacquire, address, haddress, timeout, htimeout, level, hlevel, json,
    hjson, rfl⟩ := h
  have hread {α : Type} {read? : SettingValue → Option α} {default a : α}
      (h : setting? read? default s.fieldName entries = some a) : read? v = some a := by
    rwa [setting?, hentry] at h
  cases s with
  | databaseUrl =>
    obtain rfl := Option.some.inj ((hsection _).symm.trans hdatabase)
    exact hread hurl
  | maxConnections =>
    obtain rfl := Option.some.inj ((hsection _).symm.trans hdatabase)
    exact hread hconnections
  | acquireTimeoutSecs =>
    obtain rfl := Option.some.inj ((hsection _).symm.trans hdatabase)
    exact hread hacquire
  | prometheusUrl =>
    obtain rfl := Option.some.inj ((hsection _).symm.trans hprometheus)
    exact hread haddress
  | queryTimeoutSecs =>
    obtain rfl := Option.some.inj ((hsection _).symm.trans hprometheus)
    exact hread htimeout
  | logLevel =>
    obtain rfl := Option.some.inj ((hsection _).symm.trans hlog)
    exact hread hlevel
  | logJson =>
    obtain rfl := Option.some.inj ((hsection _).symm.trans hlog)
    exact hread hjson

/-- The layers that settings were loaded from. -/
theorem exists_layers_of_load (h : load environment file = .ok cfg) : ∃ entries base config,
    ofFile file = .ok entries ∧ layer? entries (.table []) = some base ∧
      layer? (ofEnvironment environment) base = some config ∧ ofConfig? config = some cfg := by
  unfold load at h
  cases hfile : ofFile file with
  | error e =>
    rw [hfile] at h
    cases h
  | ok entries =>
    rw [hfile] at h
    simp only [bind, Except.bind] at h
    split at h
    · cases h
    · next config hconfig =>
      split at h
      · next cfg' hcfg =>
        obtain rfl := Except.ok.inj h
        obtain ⟨base, hbase, hlayer⟩ := Option.bind_eq_some_iff.1 hconfig
        exact ⟨entries, base, config, rfl, hbase, hlayer, hcfg⟩
      · cases h

/-- **A setting is what the text of its variable converts to.** -/
theorem read?_of_setByVariable (h : SetByVariable environment s text)
    (hload : load environment file = .ok cfg) : s.read? (.text text) = some (s.get cfg) := by
  obtain ⟨entries, base, config, -, -, hlayer, hcfg⟩ := exists_layers_of_load hload
  exact read?_of_ofConfig? hcfg (valueAt?_of_setByVariable h hlayer)

/-- **A setting is what its value in the file converts to**, if the environment leaves it alone. -/
theorem read?_of_setByFile {j content : Json} (h : SetByFile s j content)
    (huntouched : Untouched environment s)
    (hload : load environment (.present content) = .ok cfg) :
    ∃ v, ofJson? j = some v ∧ (Hides v → s.read? v = some (s.get cfg)) := by
  obtain ⟨entries, base, config, hfile, hbase, hlayer, hcfg⟩ := exists_layers_of_load hload
  obtain ⟨value, hvalue, rfl⟩ : ∃ value, ofJson? content = some value ∧ value.entries = entries := by
    rw [ofFile] at hfile
    split at hfile
    · next value hvalue =>
      split at hfile
      · exact ⟨value, hvalue, Except.ok.inj hfile⟩
      · cases hfile
    · cases hfile
  obtain ⟨v, hv, hbase'⟩ := exists_valueAt?_of_setByFile h hvalue
  refine ⟨v, hv, fun hhides => read?_of_ofConfig? hcfg ?_⟩
  rw [valueAt?_of_untouched huntouched hlayer, hbase' hhides base hbase]

end Settings

end UsageBilling
