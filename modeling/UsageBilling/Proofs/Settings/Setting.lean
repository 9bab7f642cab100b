import UsageBilling.Proofs.Settings.Tables

/-!
# Settings one by one

A configuration is read setting by setting: each has a section, a name in it, a variable of the
environment, and a conversion of its own.

* `Setting` : the settings, each with its section, its name and what it is read as.
* `Setting.ofKey_key`, `Setting.keyOfVariable?_of_names` : where the variable of a setting leads.
* `Settings.ofConfig?_eq_some_iff`, `Settings.ofConfig?_eq_none_iff` : the settings of a
  configuration, one by one.
-/

namespace UsageBilling

open Settings SettingValue

/-- The settings that there are. -/
inductive Setting where
  | databaseUrl
  | maxConnections
  | acquireTimeoutSecs
  | prometheusUrl
  | queryTimeoutSecs
  | logLevel
  | logJson
  deriving DecidableEq

namespace Setting

variable {s s' : Setting} {name : String}

/-- The name of the section of a setting. -/
def sectionName : Setting → String
  | .databaseUrl | .maxConnections | .acquireTimeoutSecs => "database"
  | .prometheusUrl | .queryTimeoutSecs => "prometheus"
  | .logLevel | .logJson => "log"

/-- The name of a setting in its section. -/
def fieldName : Setting → String
  | .databaseUrl | .prometheusUrl => "url"
  | .maxConnections => "max_connections"
  | .acquireTimeoutSecs => "acquire_timeout_secs"
  | .queryTimeoutSecs => "query_timeout_secs"
  | .logLevel => "level"
  | .logJson => "json"

/-- What a setting can be. -/
def Content : Setting → Type
  | .databaseUrl | .prometheusUrl | .logLevel => String
  | .maxConnections | .acquireTimeoutSecs => Nat
  | .queryTimeoutSecs => Option Nat
  | .logJson => Bool

/-- What a value converts to. -/
def read? : (s : Setting) → SettingValue → Option s.Content
  | .databaseUrl, v | .prometheusUrl, v | .logLevel, v => v.toText?
  | .maxConnections, v => toUnsigned32? v
  | .acquireTimeoutSecs, v => v.toUnsigned?
  | .queryTimeoutSecs, v => toOptional? v
  | .logJson, v => v.toBool?

/-- What a setting is among the settings. -/
def get : (s : Setting) → Settings → s.Content
  | .databaseUrl, cfg => cfg.database.url
  | .maxConnections, cfg => cfg.database.maxConnections
  | .acquireTimeoutSecs, cfg => cfg.database.acquireTimeoutSecs
  | .prometheusUrl, cfg => cfg.prometheus.url
  | .queryTimeoutSecs, cfg => cfg.prometheus.queryTimeoutSecs
  | .logLevel, cfg => cfg.log.level
  | .logJson, cfg => cfg.log.json

/-- What a setting is to be: its default, if no value is given. -/
def take? (s : Setting) : Option SettingValue → Option s.Content
  | none => some (s.get defaults)
  | some v => s.read? v

/-- The key of a setting. -/
def key (s : Setting) : String := s.sectionName ++ "." ++ s.fieldName

/-- The characters of a setting's variable, in lower case. -/
def variableName (s : Setting) : List Char :=
  variableStart ++ s.sectionName.toList ++ ['_', '_'] ++ s.fieldName.toList

/-- The variable is that of the setting, in any case of its letters. -/
def Names (s : Setting) (name : String) : Prop := name.toList.map lower = s.variableName

instance (s : Setting) (name : String) : Decidable (s.Names name) :=
  inferInstanceAs (Decidable (_ = _))

theorem forall_iff {P : Setting → Prop} : (∀ s, P s) ↔ P .databaseUrl ∧ P .maxConnections ∧
    P .acquireTimeoutSecs ∧ P .prometheusUrl ∧ P .queryTimeoutSecs ∧ P .logLevel ∧ P .logJson := by
  constructor
  · intro h
    exact ⟨h _, h _, h _, h _, h _, h _, h _⟩
  · rintro ⟨h₁, h₂, h₃, h₄, h₅, h₆, h₇⟩ s
    cases s <;> assumption

instance {P : Setting → Prop} [DecidablePred P] : Decidable (∀ s, P s) :=
  decidable_of_iff _ forall_iff.symm

theorem eq_of_names (hsection : s.sectionName = s'.sectionName) (hfield : s.fieldName = s'.fieldName) :
    s = s' := by
  cases s <;> cases s' <;> first | rfl | exact absurd hsection (by decide) |
    exact absurd hfield (by decide)

theorem eq_of_key (h : s.key = s'.key) : s = s' := by
  cases s <;> cases s' <;> first | rfl | exact absurd h (by decide)

theorem ofKey_key (s : Setting) :
    SettingPath.ofKey s.key = [.entry s.sectionName, .entry s.fieldName] := by
  cases s <;> decide

theorem keyOfVariable?_of_names (h : s.Names name) : keyOfVariable? name = some s.key := by
  unfold Names at h
  unfold keyOfVariable?
  rw [h]
  cases s <;> decide

/-- No list and no table converts. -/
theorem read?_table (s : Setting) (entries : List (String × SettingValue)) :
    s.read? (.table entries) = none := by
  cases s <;> rfl

/-- A value converts to the same when it is laid over nothing. -/
theorem read?_overlay_none (s : Setting) (v : SettingValue) :
    s.read? (v.overlay none) = s.read? v := by
  cases v with
  | table entries =>
    obtain ⟨all, hall⟩ := exists_overlayEntries_table entries []
    rw [overlay_none_table, hall, read?_table, read?_table]
  | _ => rfl

end Setting

namespace Settings

variable {config : SettingValue} {cfg : Settings}

/-- The settings with given contents. -/
def ofContents (content : ∀ s : Setting, s.Content) : Settings where
  database := ⟨content .databaseUrl, content .maxConnections, content .acquireTimeoutSecs⟩
  prometheus := ⟨content .prometheusUrl, content .queryTimeoutSecs⟩
  log := ⟨content .logLevel, content .logJson⟩

@[simp] theorem get_ofContents (content : ∀ s : Setting, s.Content) (s : Setting) :
    s.get (ofContents content) = content s := by
  cases s <;> rfl

/-! ### What a configuration has for a setting -/

/-- The entry of a setting in a configuration. -/
def valueAt? (config : SettingValue) (s : Setting) : Option SettingValue :=
  (config.entries.lookup s.sectionName).bind fun v => v.entries.lookup s.fieldName

/-- The sections that a configuration has are tables. -/
def Sectioned (config : SettingValue) : Prop :=
  ∀ (s : Setting) v, config.entries.lookup s.sectionName = some v → ∃ entries, v = .table entries

/-- A section that is read has the entries of its settings. -/
theorem sectionOf?_eq (h : Sectioned config) (s : Setting) (names : List String) :
    ∃ entries, sectionOf? s.sectionName names config = some entries ∧
      ∀ s' : Setting, s'.sectionName = s.sectionName →
        setting? s'.read? (s'.get defaults) s'.fieldName entries = s'.take? (valueAt? config s') := by
  have htake (s' : Setting) (entries : List (String × SettingValue)) :
      setting? s'.read? (s'.get defaults) s'.fieldName entries =
        s'.take? (entries.lookup s'.fieldName) := by
    unfold setting?
    cases entries.lookup s'.fieldName <;> rfl
  simp only [htake, sectionOf?, valueAt?]
  cases hv : config.entries.lookup s.sectionName with
  | none => exact ⟨[], rfl, fun s' hs' => by rw [hs', hv]; rfl⟩
  | some v =>
    obtain ⟨entries, rfl⟩ := h s v hv
    exact ⟨entries, rfl, fun s' hs' => by rw [hs', hv]; rfl⟩

/-- **The settings of a configuration**, one by one. -/
theorem ofConfig?_eq_some_iff (h : Sectioned config) :
    ofConfig? config = some cfg ↔ ∀ s : Setting, s.take? (valueAt? config s) = some (s.get cfg) := by
  obtain ⟨database, hdatabase, hdatabase'⟩ :=
    sectionOf?_eq h .databaseUrl ["url", "max_connections", "acquire_timeout_secs"]
  obtain ⟨prometheus, hprometheus, hprometheus'⟩ :=
    sectionOf?_eq h .prometheusUrl ["url", "query_timeout_secs"]
  obtain ⟨log, hlog, hlog'⟩ := sectionOf?_eq h .logLevel ["level", "json"]
  have hurl : setting? toText? defaults.database.url "url" database = _ := hdatabase' .databaseUrl rfl
  have hconnections :
      setting? toUnsigned32? defaults.database.maxConnections "max_connections" database = _ :=
    hdatabase' .maxConnections rfl
  have hacquire : setting? toUnsigned? defaults.database.acquireTimeoutSecs "acquire_timeout_secs"
      database = _ := hdatabase' .acquireTimeoutSecs rfl
  have haddress : setting? toText? defaults.prometheus.url "url" prometheus = _ :=
    hprometheus' .prometheusUrl rfl
  have htimeout : setting? toOptional? defaults.prometheus.queryTimeoutSecs "query_timeout_secs"
      prometheus = _ := hprometheus' .queryTimeoutSecs rfl
  have hlevel : setting? toText? defaults.log.level "level" log = _ := hlog' .logLevel rfl
  have hjson : setting? toBool? defaults.log.json "json" log = _ := hlog' .logJson rfl
  have hsections : sectionOf? "database" _ config = some database ∧
      sectionOf? "prometheus" _ config = some prometheus ∧ sectionOf? "log" _ config = some log :=
    ⟨hdatabase, hprometheus, hlog⟩
  rw [Setting.forall_iff]
  simp only [ofConfig?, hsections, Option.bind_eq_bind, Option.bind_some, Option.bind_eq_some_iff,
    Option.some.injEq]
  constructor
  · rintro ⟨url, h₁, connections, h₂, acquire, h₃, address, h₄, timeout, h₅, level, h₆, json, h₇, rfl⟩
    exact ⟨hurl.symm.trans h₁, hconnections.symm.trans h₂, hacquire.symm.trans h₃,
      haddress.symm.trans h₄, htimeout.symm.trans h₅, hlevel.symm.trans h₆, hjson.symm.trans h₇⟩
  · rintro ⟨h₁, h₂, h₃, h₄, h₅, h₆, h₇⟩
    exact ⟨_, hurl.trans h₁, _, hconnections.trans h₂, _, hacquire.trans h₃, _, haddress.trans h₄,
      _, htimeout.trans h₅, _, hlevel.trans h₆, _, hjson.trans h₇, rfl⟩

theorem ofConfig?_eq_none_iff (h : Sectioned config) :
    ofConfig? config = none ↔ ∃ s : Setting, s.take? (valueAt? config s) = none := by
  constructor
  · intro hnone
    refine Classical.byContradiction fun hall => ?_
    have hsome (s : Setting) : (s.take? (valueAt? config s)).isSome :=
      Option.isSome_iff_ne_none.2 fun hs => hall ⟨s, hs⟩
    have hcfg : ofConfig? config =
        some (ofContents fun s => (s.take? (valueAt? config s)).get (hsome s)) :=
      (ofConfig?_eq_some_iff h).2 fun s => by rw [get_ofContents, Option.some_get]
    rw [hnone] at hcfg
    cases hcfg
  · rintro ⟨s, hs⟩
    cases hcfg : ofConfig? config with
    | none => rfl
    | some cfg =>
      have htake := (ofConfig?_eq_some_iff h).1 hcfg s
      rw [hs] at htake
      cases htake

end Settings

end UsageBilling
