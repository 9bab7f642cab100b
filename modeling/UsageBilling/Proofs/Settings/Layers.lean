import UsageBilling.Proofs.Settings.Setting

/-!
# The layers of the settings

Every setting is found by itself: in the variable of the environment that has its name, else in the
file under its name, else in the defaults.  What is found has to convert; what it hides need not.

* `Settings.exists_layer?_environment` : what the environment sets, setting by setting.
* `Settings.Plain.exists_layer?` : what the file sets, setting by setting.
* `Settings.load_layers` : the settings that are loaded are those considered, one by one.
* `Settings.load_indexed_key` : a key that leads into a section breaks this.
-/

namespace UsageBilling

open Settings SettingValue

namespace Settings

variable {environment : List (String × String)} {file : SettingsFile} {cfg : Settings}
  {name : String}

/-! ### What the environment sets -/

/-- The text that the environment has for a setting. -/
def environmentText? (environment : List (String × String)) (s : Setting) : Option String :=
  (environment.find? fun entry => s.Names entry.1).map Prod.snd

/-- Each variable with the common start is that of a setting. -/
def VariablesNamed (environment : List (String × String)) : Prop :=
  ∀ entry ∈ environment, variableStart <+: entry.1.toList.map lower → ∃ s : Setting, s.Names entry.1

/-- No two variables are those of one setting. -/
def VariablesDistinct (environment : List (String × String)) : Prop :=
  environment.Pairwise fun entry entry' => ∀ s : Setting, s.Names entry.1 → ¬ s.Names entry'.1

/-- What a variable sets. -/
def entryOfVariable? (entry : String × String) : Option (String × SettingValue) :=
  (keyOfVariable? entry.1).map fun key => (key, .text entry.2)

theorem ofEnvironment_perm (environment : List (String × String)) :
    (ofEnvironment environment).Perm (environment.filterMap entryOfVariable?) :=
  (byName_perm environment).filterMap entryOfVariable?

theorem isPrefix_of_keyOfVariable? {key : String} (h : keyOfVariable? name = some key) :
    variableStart <+: name.toList.map lower := by
  unfold keyOfVariable? at h
  simp only at h
  split at h
  · next hstart => exact List.isPrefixOf_iff_prefix.1 hstart
  · cases h

/-- A variable that sets something sets the setting that it is named for. -/
theorem VariablesNamed.exists_eq (h : VariablesNamed environment) {entry : String × String}
    (hmem : entry ∈ environment) {set : String × SettingValue}
    (hset : entryOfVariable? entry = some set) :
    ∃ s : Setting, s.Names entry.1 ∧ set = (s.key, .text entry.2) := by
  obtain ⟨key, hkey, rfl⟩ := Option.map_eq_some_iff.1 hset
  obtain ⟨s, hs⟩ := h entry hmem (isPrefix_of_keyOfVariable? hkey)
  obtain rfl := Option.some.inj (hkey.symm.trans (Setting.keyOfVariable?_of_names hs))
  exact ⟨s, hs, rfl⟩

theorem nodup_texts (h : VariablesNamed environment) (hdistinct : VariablesDistinct environment) :
    ((environment.filterMap entryOfVariable?).map Prod.fst).Nodup := by
  refine List.pairwise_map.2 (List.pairwise_filterMap.2 ?_)
  refine List.Pairwise.imp_of_mem ?_ hdistinct
  intro entry entry' hmem hmem' hnot set hset set' hset' hkeys
  obtain ⟨s, hs, rfl⟩ := h.exists_eq hmem hset
  obtain ⟨s', hs', rfl⟩ := h.exists_eq hmem' hset'
  obtain rfl := Setting.eq_of_key hkeys
  exact hnot s hs hs'

theorem lookup_texts (h : VariablesNamed environment) (s : Setting) :
    (environment.filterMap entryOfVariable?).lookup s.key =
      (environmentText? environment s).map .text := by
  unfold environmentText?
  induction environment with
  | nil => rfl
  | cons entry rest ih =>
    have hrest := ih fun entry hmem => h entry (List.mem_cons_of_mem _ hmem)
    cases hset : entryOfVariable? entry with
    | none =>
      have hnot : ¬ s.Names entry.1 := by
        intro hs
        rw [entryOfVariable?, Setting.keyOfVariable?_of_names hs] at hset
        cases hset
      rw [List.filterMap_cons_none hset, List.find?_cons_of_neg (by simpa using hnot), hrest]
    | some set =>
      obtain ⟨s', hs', rfl⟩ := h.exists_eq List.mem_cons_self hset
      rw [List.filterMap_cons_some hset, lookup_cons_ite]
      by_cases heq : s = s'
      · subst heq
        rw [if_pos rfl, List.find?_cons_of_pos (by simpa using hs')]
        rfl
      · have hnot : ¬ s.Names entry.1 := by
          intro hs
          have hkeys := (Setting.keyOfVariable?_of_names hs).symm.trans
            (Setting.keyOfVariable?_of_names hs')
          exact heq (Setting.eq_of_key (Option.some.inj hkeys))
        rw [if_neg fun hkeys => heq (Setting.eq_of_key hkeys),
          List.find?_cons_of_neg (by simpa using hnot), hrest]

/-- A text at the key of a setting leaves the entries of all others alone. -/
theorem exists_put?_key (s : Setting) (t : String) (config : SettingValue) : ∃ config',
    SettingValue.put? (.text t) (SettingPath.ofKey s.key) (some config) = some config' ∧
      (∀ s', valueAt? config' s' = if s' = s then some (.text t) else valueAt? config s') ∧
      (Sectioned config → Sectioned config') := by
  rw [Setting.ofKey_key]
  refine ⟨_, rfl, fun s' => ?_, fun h s' v hv => ?_⟩
  · simp only [valueAt?, entries_table, Option.getD_some, lookup_setEntry]
    by_cases hsection : s'.sectionName = s.sectionName
    · rw [if_pos hsection, Option.bind_some, entries_table, lookup_setEntry, hsection]
      by_cases hfield : s'.fieldName = s.fieldName
      · rw [if_pos hfield, if_pos (Setting.eq_of_names hsection hfield)]
        rfl
      · rw [if_neg hfield, if_neg (mt (congrArg Setting.fieldName) hfield)]
        cases config.entries.lookup s.sectionName <;> rfl
    · rw [if_neg hsection, if_neg (mt (congrArg Setting.sectionName) hsection)]
  · simp only [entries_table, Option.getD_some, lookup_setEntry] at hv
    split at hv
    · obtain rfl := Option.some.inj hv
      exact ⟨_, rfl⟩
    · exact h s' v hv

/-- **Texts at the keys of settings** set these settings and no others. -/
theorem exists_foldlM_texts {entries : List (String × SettingValue)}
    (h : ∀ entry ∈ entries, ∃ (s : Setting) (t : String), entry = (s.key, .text t))
    (hnodup : (entries.map Prod.fst).Nodup) (config : SettingValue) : ∃ config',
      entries.foldlM (fun config (key, v) => v.put? (SettingPath.ofKey key) (some config)) config =
        some config' ∧
      (∀ s : Setting, valueAt? config' s = (entries.lookup s.key).or (valueAt? config s)) ∧
      (Sectioned config → Sectioned config') := by
  induction entries generalizing config with
  | nil => exact ⟨config, rfl, fun s => rfl, id⟩
  | cons entry rest ih =>
    obtain ⟨s, t, rfl⟩ := h entry List.mem_cons_self
    obtain ⟨hfirst, hrest⟩ := List.nodup_cons.1 hnodup
    obtain ⟨config', hput, hvalue, hsectioned⟩ := exists_put?_key s t config
    obtain ⟨config'', hfold, hvalue', hsectioned'⟩ :=
      ih (fun entry hmem => h entry (List.mem_cons_of_mem _ hmem)) hrest config'
    refine ⟨config'', ?_, fun s' => ?_, hsectioned' ∘ hsectioned⟩
    · rw [List.foldlM_cons]
      simp only [hput]
      exact hfold
    · rw [hvalue', hvalue, lookup_cons_ite]
      by_cases heq : s' = s
      · subst heq
        rw [lookup_eq_none_of_not_mem hfirst, if_pos rfl, if_pos rfl]
        rfl
      · rw [if_neg heq, if_neg fun hkeys => heq (Setting.eq_of_key hkeys)]

/-- **What the environment sets**, setting by setting. -/
theorem exists_layer?_environment (h : VariablesNamed environment)
    (hdistinct : VariablesDistinct environment) (config : SettingValue) : ∃ config',
      layer? (ofEnvironment environment) config = some config' ∧
      (∀ s : Setting, valueAt? config' s =
        ((environmentText? environment s).map .text).or (valueAt? config s)) ∧
      (Sectioned config → Sectioned config') := by
  have hperm : (byName (ofEnvironment environment)).Perm (environment.filterMap entryOfVariable?) :=
    (byName_perm _).trans (ofEnvironment_perm environment)
  have hnodup := ((hperm.map Prod.fst).nodup_iff).2 (nodup_texts h hdistinct)
  obtain ⟨config', hfold, hvalue, hsectioned⟩ := exists_foldlM_texts (fun entry hmem => by
    obtain ⟨source, hmem, hset⟩ := List.mem_filterMap.1 (hperm.mem_iff.1 hmem)
    obtain ⟨s, -, rfl⟩ := h.exists_eq hmem hset
    exact ⟨s, source.2, rfl⟩) hnodup config
  refine ⟨config', hfold, fun s => ?_, hsectioned⟩
  rw [hvalue, lookup_eq_of_perm hperm hnodup, lookup_texts h]

/-! ### What the file sets -/

end Settings

/-- What the file says: nothing if there is none. -/
def SettingsFile.content : SettingsFile → Json
  | .present content => content
  | _ => .object []

/-- The values of the file are read, and it is not nested too deeply. -/
def SettingsFile.Readable (file : SettingsFile) : Prop :=
  (SettingValue.ofJson? file.content).isSome ∧ file.content.depth ≤ maxFileDepth

instance (file : SettingsFile) : Decidable file.Readable := inferInstanceAs (Decidable (_ ∧ _))

namespace Settings

/-- What the file has for a setting, in its section and under its name. -/
def fileJson? (file : SettingsFile) (s : Setting) : Option Json :=
  (file.content.member? s.sectionName).bind fun j => j.member? s.fieldName

/-- A file that is an object, or none at all, with keys that are no paths and sections that are
objects. -/
structure Plain (file : SettingsFile) : Prop where
  not_missing : file ≠ .missing
  isObject : ∃ members, file.content = .object members
  plain : ∀ key j, (some key, j) ∈ file.content.members → SettingPath.IsPlain key
  sections : ∀ (s : Setting) j, file.content.member? s.sectionName = some j →
    ∃ members, j = .object members

theorem ofFile_eq (h : file ≠ .missing) : ofFile file =
    match SettingValue.ofJson? file.content with
    | some v => if file.content.depth ≤ maxFileDepth then .ok v.entries else .error .unreadable
    | none => .error .unreadable := by
  cases file with
  | absent => rfl
  | missing => exact absurd rfl h
  | present content => rfl

theorem load_unreadable (h : file ≠ .missing) (hread : ¬ file.Readable) :
    load environment file = .error .unreadable := by
  have hfile : ofFile file = .error .unreadable := by
    rw [ofFile_eq h]
    cases hv : SettingValue.ofJson? file.content with
    | none => rfl
    | some v => exact if_neg fun hdepth => hread ⟨by rw [hv]; rfl, hdepth⟩
  rw [load, hfile]
  rfl

/-- No key of the file leads anywhere but to its own entry. -/
theorem Plain.isPlain_of_mem (h : Plain file) {entries : List (String × SettingValue)}
    (htable : IsTableOf file.content entries) {entry : String × SettingValue}
    (hmem : entry ∈ entries) : SettingPath.IsPlain entry.1 := by
  have hkey := (lookup_eq_some_iff_of_nodup htable.nodup).2 hmem
  rw [htable.lookup_eq] at hkey
  obtain ⟨j, hj, -⟩ := Option.bind_eq_some_iff.1 hkey
  exact h.plain entry.1 j (mem_of_member? hj)

/-- A section of the file becomes a table of the configuration. -/
theorem Plain.lookup_section (h : Plain file) {entries : List (String × SettingValue)}
    (htable : IsTableOf file.content entries) (s : Setting) :
    (file.content.member? s.sectionName = none ∧
        (overlayEntries (byName entries) (.table [])).entries.lookup s.sectionName = none) ∨
      ∃ j fields, file.content.member? s.sectionName = some j ∧ IsTableOf j fields ∧
        (overlayEntries (byName entries) (.table [])).entries.lookup s.sectionName =
          some (overlayEntries fields (.table [])) := by
  have hsorted : ((byName entries).map Prod.fst).Nodup :=
    ((byName_perm entries).map Prod.fst).nodup_iff.2 htable.nodup
  rw [lookup_overlayEntries_empty hsorted, lookup_byName htable.nodup, htable.lookup_eq]
  cases hj : file.content.member? s.sectionName with
  | none => exact .inl ⟨rfl, rfl⟩
  | some j =>
    obtain ⟨v, hv⟩ := Option.isSome_iff_exists.1 (htable.isSome _ j hj)
    obtain ⟨members, rfl⟩ := h.sections s j hj
    obtain ⟨fields, rfl, hfields⟩ := ofJson?_object hv
    refine .inr ⟨_, fields, rfl, hfields, ?_⟩
    rw [Option.bind_some, hv, Option.map_some, overlay_none_table]

/-- **What the file sets**, setting by setting. -/
theorem Plain.exists_layer? (h : Plain file) (hread : file.Readable) : ∃ entries config,
    ofFile file = .ok entries ∧ layer? entries (.table []) = some config ∧ Sectioned config ∧
      ∀ s : Setting, valueAt? config s =
        ((fileJson? file s).bind SettingValue.ofJson?).map fun v => v.overlay none := by
  obtain ⟨v, hv⟩ := Option.isSome_iff_exists.1 hread.1
  obtain ⟨members, hmembers⟩ := h.isObject
  obtain ⟨entries, rfl, htable⟩ := ofJson?_object (hmembers ▸ hv)
  rw [← hmembers] at htable
  have hfile : ofFile file = .ok entries := by
    rw [ofFile_eq h.not_missing, hv]
    exact if_pos hread.2
  refine ⟨entries, _, hfile, layer?_plain (fun _ => h.isPlain_of_mem htable) _, ?_, ?_⟩
  · intro s v hv
    obtain ⟨-, hnone⟩ | ⟨j, fields, -, -, hsome⟩ := h.lookup_section htable s
    · rw [hnone] at hv
      cases hv
    · obtain rfl := Option.some.inj (hsome.symm.trans hv)
      exact exists_overlayEntries_table fields []
  · intro s
    rw [valueAt?, fileJson?]
    obtain ⟨hmember, hnone⟩ | ⟨j, fields, hmember, hfields, hsome⟩ := h.lookup_section htable s
    · rw [hnone, hmember]
      rfl
    · rw [hsome, hmember, Option.bind_some, Option.bind_some,
        lookup_overlayEntries_empty hfields.nodup, hfields.lookup_eq]

/-! ### The settings that are loaded -/

/-- The value considered for a setting: that of the environment, else that of the file. -/
def considered (environment : List (String × String)) (file : SettingsFile) (s : Setting) :
    Option SettingValue :=
  ((environmentText? environment s).map .text).or
    ((fileJson? file s).bind SettingValue.ofJson?)

/-- The variables are those of different settings, and no key of the file is a path. -/
structure Proper (environment : List (String × String)) (file : SettingsFile) : Prop where
  named : VariablesNamed environment
  distinct : VariablesDistinct environment
  file_plain : Plain file

theorem load_of_layer? {entries : List (String × SettingValue)} {config : SettingValue}
    (hfile : ofFile file = .ok entries)
    (hconfig : (layer? entries (.table [])).bind (layer? (ofEnvironment environment)) =
      some config) :
    (∀ cfg, load environment file = .ok cfg ↔ ofConfig? config = some cfg) ∧
      ∀ e, load environment file = .error e ↔ e = .invalid ∧ ofConfig? config = none := by
  unfold load
  simp only [hfile, bind, Except.bind, hconfig]
  cases ofConfig? config <;> simp [eq_comm]

/-- What is considered for a setting decides about it. -/
theorem Proper.exists_config (h : Proper environment file) (hread : file.Readable) : ∃ config,
    ((∀ cfg, load environment file = .ok cfg ↔ ofConfig? config = some cfg) ∧
      ∀ e, load environment file = .error e ↔ e = .invalid ∧ ofConfig? config = none) ∧
      Sectioned config ∧
      ∀ s : Setting, s.take? (valueAt? config s) = s.take? (considered environment file s) := by
  obtain ⟨entries, base, hfile, hbase, hsectioned, hvalue⟩ := h.file_plain.exists_layer? hread
  obtain ⟨config, hconfig, hvalue', hsectioned'⟩ :=
    exists_layer?_environment h.named h.distinct base
  refine ⟨config, load_of_layer? hfile ?_, hsectioned' hsectioned, fun s => ?_⟩
  · rw [hbase, Option.bind_some, hconfig]
  · rw [hvalue', hvalue, considered]
    cases environmentText? environment s with
    | some t => rfl
    | none =>
      cases (fileJson? file s).bind SettingValue.ofJson? with
      | none => rfl
      | some v => exact s.read?_overlay_none v

/-- The settings that are loaded, one by one. -/
theorem Proper.load_eq_ok_iff (h : Proper environment file) (hread : file.Readable) :
    load environment file = .ok cfg ↔
      ∀ s : Setting, s.take? (considered environment file s) = some (s.get cfg) := by
  obtain ⟨config, ⟨hok, -⟩, hsectioned, htake⟩ := h.exists_config hread
  simp only [hok, ofConfig?_eq_some_iff hsectioned, htake]

theorem Proper.load_eq_error_iff (h : Proper environment file) (hread : file.Readable)
    {e : SettingsError} : load environment file = .error e ↔
      e = .invalid ∧ ∃ s : Setting, s.take? (considered environment file s) = none := by
  obtain ⟨config, ⟨-, herror⟩, hsectioned, htake⟩ := h.exists_config hread
  simp only [herror, ofConfig?_eq_none_iff hsectioned, htake]

theorem Proper.exists_load_eq_ok_iff (h : Proper environment file) (hread : file.Readable) :
    (∃ cfg, load environment file = .ok cfg) ↔
      ∀ (s : Setting) v, considered environment file s = some v → (s.read? v).isSome := by
  constructor
  · rintro ⟨cfg, hcfg⟩ s v hv
    have htake := (h.load_eq_ok_iff hread).1 hcfg s
    rw [hv] at htake
    exact Option.isSome_of_eq_some htake
  · intro hall
    cases hload : load environment file with
    | ok cfg => exact ⟨cfg, rfl⟩
    | error e =>
      obtain ⟨-, s, hs⟩ := (h.load_eq_error_iff hread).1 hload
      cases hv : considered environment file s with
      | none =>
        rw [hv] at hs
        cases hs
      | some v =>
        rw [hv] at hs
        exact absurd hs (Option.isSome_iff_ne_none.1 (hall s v hv))

theorem Proper.readable (h : Proper environment file) (hload : load environment file = .ok cfg) :
    file.Readable := by
  refine Classical.byContradiction fun hread => ?_
  rw [load_unreadable h.file_plain.not_missing hread] at hload
  cases hload

/-- **Every setting is loaded by itself.**  Let the variables be those of different settings, and
let no key of the file be a path and its sections be objects.  If the file can be read, the settings
are loaded just if all values considered convert, and each is then what its value converts to, or
its default without one; otherwise they are invalid.  So settings for which the same is considered
are the same, whatever else differs. -/
theorem load_layers (h : Proper environment file) :
    (¬ file.Readable → load environment file = .error .unreadable) ∧
      (file.Readable →
        (∀ cfg, load environment file = .ok cfg ↔
          ∀ s : Setting, s.take? (considered environment file s) = some (s.get cfg)) ∧
        ((∃ cfg, load environment file = .ok cfg) ↔
          ∀ (s : Setting) v, considered environment file s = some v → (s.read? v).isSome) ∧
        ∀ e, load environment file = .error e → e = .invalid) ∧
      ∀ environment' file' cfg cfg', Proper environment' file' →
        load environment file = .ok cfg → load environment' file' = .ok cfg' →
          ∀ s : Setting, considered environment file s = considered environment' file' s →
            s.get cfg = s.get cfg' := by
  refine ⟨load_unreadable h.file_plain.not_missing, fun hread => ⟨fun cfg => h.load_eq_ok_iff hread,
    h.exists_load_eq_ok_iff hread, fun e he => ((h.load_eq_error_iff hread).1 he).1⟩, ?_⟩
  intro environment' file' cfg cfg' h' hload hload' s hsame
  have htake := (h.load_eq_ok_iff (h.readable hload)).1 hload s
  have htake' := (h'.load_eq_ok_iff (h'.readable hload')).1 hload' s
  rw [hsame, htake'] at htake
  exact (Option.some.inj htake).symm

/-- Two variables of settings, and one that is none. -/
def twoVariables : List (String × String) :=
  [("METERBOOK_LOG__LEVEL", "debug"), ("PATH", "/bin"),
    ("meterbook_Database__max_connections", "+12")]

/-- A file with a level that is no text, a section without one of its settings, and a key that no
one reads. -/
def partialFile : SettingsFile :=
  .present (.object [
    (some "log", .object [(some "level", .array []), (some "json", Json.text "on")]),
    (some "prometheus", .object [(some "query_timeout_secs", Json.int 30)]),
    (some "other", .null)])

theorem load_layers_partial : Proper twoVariables partialFile ∧ partialFile.Readable ∧
    load twoVariables partialFile = .ok
      ⟨⟨defaults.database.url, 12, 30⟩, ⟨defaults.prometheus.url, some 30⟩, ⟨"debug", true⟩⟩ := by
  have hnamed : VariablesNamed twoVariables := by
    intro entry hmem hstart
    simp only [twoVariables, List.mem_cons, List.not_mem_nil, or_false] at hmem
    rcases hmem with rfl | rfl | rfl
    · exact ⟨.logLevel, by decide⟩
    · exact absurd hstart (by decide)
    · exact ⟨.maxConnections, by decide⟩
  have hplain : Plain partialFile := {
    not_missing := nofun
    isObject := ⟨_, rfl⟩
    plain := by
      intro key j hmem
      simp only [partialFile, SettingsFile.content, Json.members, List.mem_cons, Prod.mk.injEq,
        Option.some.injEq, List.not_mem_nil, or_false] at hmem
      rcases hmem with ⟨rfl, -⟩ | ⟨rfl, -⟩ | ⟨rfl, -⟩ <;> decide
    sections := by
      intro s j hj
      cases s <;> first | exact ⟨_, (Option.some.inj hj).symm⟩ | cases hj }
  have hdistinct : VariablesDistinct twoVariables := by
    unfold VariablesDistinct
    decide
  have hproper : Proper twoVariables partialFile := ⟨hnamed, hdistinct, hplain⟩
  have hread : partialFile.Readable := by decide +kernel
  refine ⟨hproper, hread, (((load_layers hproper).2.1 hread).1 _).2 fun s => ?_⟩
  cases s <;> rfl

/-! ### Keys that are paths -/

/-- A file with one key and no sections. -/
def singleKey (key : String) (j : Json) : SettingsFile := .present (.object [(some key, j)])

/-- Under such a key nothing is considered. -/
theorem considered_singleKey {key : String} (h : ∀ s : Setting, s.sectionName ≠ key) (j : Json)
    (s : Setting) : considered [] (singleKey key j) s = none := by
  have hmember : (singleKey key j).content.member? s.sectionName = none := by
    simp [singleKey, SettingsFile.content, Json.member?, Json.members, lookup_cons_ite, h s]
  rw [considered, fileJson?, hmember]
  rfl

/-- **A key can be a path without a point.**  With an index in brackets it sets an item of a section
written as a list, and so a setting for which nothing is considered.  An index that no list has
keeps all settings from being loaded, and so does a text with half of a surrogate pair. -/
theorem load_indexed_key :
    ('.' ∉ "log[0]".toList ∧ (∀ s, considered [] (singleKey "log[0]" (.text "debug")) s = none) ∧
      ((load [] (singleKey "log[0]" (.text "debug"))).toOption.map fun cfg => cfg.log.level) =
        some "debug" ∧ defaults.log.level = "info") ∧
      ('.' ∉ "other[-1]".toList ∧ (∀ s, considered [] (singleKey "other[-1]" .null) s = none) ∧
        (load [] (singleKey "other[-1]" .null)).toOption = none) ∧
      (∀ s, considered [] (singleKey "other" (.string none)) s = none) ∧
        (load [] (singleKey "other" (.string none))).toOption = none := by
  refine ⟨⟨by decide, considered_singleKey (by decide) _, ?_, rfl⟩,
    ⟨by decide, considered_singleKey (by decide) _, ?_⟩, considered_singleKey (by decide) _, ?_⟩
  · decide +kernel
  · decide +kernel
  · decide +kernel

end Settings

end UsageBilling
