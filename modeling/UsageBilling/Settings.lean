import UsageBilling.Json.Record
import UsageBilling.Settings.Path
import UsageBilling.Store.Pool
import UsageBilling.Text.Split

/-!
# Settings

The settings of the program come from three layers: its defaults, a configuration file over them,
and variables of the environment over that.  A section is a table, or a list of its settings in
their order.  The variable of a setting is `METERBOOK_`, its section, two underscores and its name,
in any case of the letters.
-/

namespace UsageBilling

structure DatabaseSettings where
  url : String
  maxConnections : Nat
  acquireTimeoutSecs : Nat
  deriving DecidableEq

structure PrometheusSettings where
  url : String
  /-- The longest to wait for a query. -/
  queryTimeoutSecs : Option Nat
  deriving DecidableEq

structure LogSettings where
  level : String
  /-- One JSON object per line. -/
  json : Bool
  deriving DecidableEq

structure Settings where
  database : DatabaseSettings
  prometheus : PrometheusSettings
  log : LogSettings
  deriving DecidableEq

/-- The configuration file. -/
inductive SettingsFile where
  /-- None is named, and there is none in the usual place. -/
  | absent
  /-- One is named that does not exist. -/
  | missing
  | present (content : Json)

/-- Why there are no settings. -/
inductive SettingsError where
  | unreadable
  | invalid
  /-- A key leads to an item that no list can have. -/
  | outOfRange
  deriving DecidableEq

def SettingsError.message? : SettingsError → Option String
  | .unreadable => some "failed to read configuration"
  | .invalid => some "invalid configuration"
  | .outOfRange => none

namespace Settings

def defaults : Settings where
  database := ⟨"postgres://reporting@localhost/reporting?sslmode=disable", 5, 30⟩
  prometheus := ⟨"http://localhost:9090", none⟩
  log := ⟨"info", false⟩

/-! ### Layers -/

/-- Entries in the order of their names. -/
def byName {α : Type} (entries : List (String × α)) : List (String × α) :=
  entries.mergeSort fun a b => a.1 ≤ b.1

/-- Lay entries over a configuration; their keys are paths. -/
def layer? (entries : List (String × SettingValue)) (config : SettingValue) :
    Option SettingValue :=
  (byName entries).foldlM
    (fun config (key, v) => v.put? (SettingPath.ofKey key) (some config)) config

/-- What the variables that set something start with. -/
def variableStart : List Char := ['m', 'e', 't', 'e', 'r', 'b', 'o', 'o', 'k', '_']

/-- A letter in lower case.  Besides the letters of ASCII only the Kelvin sign has one of them as
its lower case. -/
def lower (c : Char) : Char := if c = '\u212a' then 'k' else c.toLower

/-- The key that a variable sets: its name in lower case behind the common start, with a point for
every two underscores. -/
def keyOfVariable? (name : String) : Option String :=
  let cs := name.toList.map lower
  if variableStart.isPrefixOf cs then
    some (String.ofList (Text.replaceAll ['_', '_'] ['.'] (cs.drop variableStart.length)))
  else none

/-- What the environment sets. -/
def ofEnvironment (environment : List (String × String)) : List (String × SettingValue) :=
  (byName environment).filterMap fun (name, value) =>
    (keyOfVariable? name).map fun key => (key, .text value)

/-- How deep a file may be nested. -/
def maxFileDepth : Nat := 127

/-- What a file sets; one that is no object sets nothing. -/
def ofFile : SettingsFile → Except SettingsError (List (String × SettingValue))
  | .absent => .ok []
  | .missing => .error .unreadable
  | .present content =>
    match SettingValue.ofJson? content with
    | some v => if content.depth ≤ maxFileDepth then .ok v.entries else .error .unreadable
    | none => .error .unreadable

/-! ### Reading the settings off a configuration -/

/-- The entries of a section with the given settings.  A list gives them in their order. -/
def sectionOf? (name : String) (settings : List String) (config : SettingValue) :
    Option (List (String × SettingValue)) :=
  match config.entries.lookup name with
  | none => some []
  | some (.table entries) => some entries
  | some (.list items) => some (settings.zip items)
  | some _ => none

/-- A setting: its default, unless there is an entry, which has to convert. -/
def setting? {α : Type} (read? : SettingValue → Option α) (default : α) (name : String)
    (entries : List (String × SettingValue)) : Option α :=
  match entries.lookup name with
  | none => some default
  | some v => read? v

/-- A number of 64 bits cut to its lower 32. -/
def toUnsigned32? (v : SettingValue) : Option Nat := v.toUnsigned?.map (· % twoPow 32)

/-- A number that may be left out. -/
def toOptional? : SettingValue → Option (Option Nat)
  | .nil => some none
  | v => v.toUnsigned?.map some

def ofConfig? (config : SettingValue) : Option Settings := do
  let database ← sectionOf? "database" ["url", "max_connections", "acquire_timeout_secs"] config
  let prometheus ← sectionOf? "prometheus" ["url", "query_timeout_secs"] config
  let log ← sectionOf? "log" ["level", "json"] config
  some {
    database := {
      url := ← setting? SettingValue.toText? defaults.database.url "url" database
      maxConnections :=
        ← setting? toUnsigned32? defaults.database.maxConnections "max_connections" database
      acquireTimeoutSecs :=
        ← setting? SettingValue.toUnsigned? defaults.database.acquireTimeoutSecs
          "acquire_timeout_secs" database }
    prometheus := {
      url := ← setting? SettingValue.toText? defaults.prometheus.url "url" prometheus
      queryTimeoutSecs :=
        ← setting? toOptional? defaults.prometheus.queryTimeoutSecs "query_timeout_secs"
          prometheus }
    log := {
      level := ← setting? SettingValue.toText? defaults.log.level "level" log
      json := ← setting? SettingValue.toBool? defaults.log.json "json" log } }

/-- The settings from an environment and a file. -/
def load (environment : List (String × String)) (file : SettingsFile) :
    Except SettingsError Settings := do
  let fileEntries ← ofFile file
  -- the file lies under the environment; defaults stand in for what both leave out
  match (layer? fileEntries (.table [])).bind (layer? (ofEnvironment environment)) with
  | none => .error .outOfRange
  | some config =>
    match ofConfig? config with
    | some s => .ok s
    | none => .error .invalid

/-- The pool the settings ask for. -/
def poolConfig (s : Settings) : PoolConfig :=
  ⟨s.database.maxConnections, s.database.acquireTimeoutSecs⟩

def toJson (s : Settings) : Json :=
  .record [
    ("database", .record [("url", .text s.database.url),
      ("max_connections", .int s.database.maxConnections),
      ("acquire_timeout_secs", .int s.database.acquireTimeoutSecs)]),
    ("prometheus", .record [("url", .text s.prometheus.url),
      ("query_timeout_secs", .optional (fun n : Nat => .int n) s.prometheus.queryTimeoutSecs)]),
    ("log", .record [("level", .text s.log.level), ("json", .bool s.log.json)])]

end Settings

end UsageBilling
