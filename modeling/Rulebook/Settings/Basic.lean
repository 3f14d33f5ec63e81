import Rulebook.Fact
import Rulebook.Rule.Encoding

/-!
# `Rulebook.Settings.Basic` — the settings of a run

Settings come from JSON values or from layers of files and variables. Both are decoded alike and differ in
what they take for a number, a text or a list, which a `Form` says. A setting that is missing has its
default; one that is not known is ignored.

## Contents
* `Strategy` — the two ways to evaluate all pairs of rules and facts
* `EngineSettings`, `SourceSettings`, `LogSettings`, `Settings` — settings and their defaults
* `Form`, `Settings.decode?` — decoding
* `Form.strict` — JSON values, taken as they are
-/

namespace Rulebook

/-! ## Strategies -/

/-- How a run goes over all pairs of a rule and a fact: a worker for each rule, or record by record with
    the actions put off. -/
inductive Strategy where
  | ruleParallel
  | recordSequential
  deriving DecidableEq

namespace Strategy

/-- The strategies, each once. -/
def all : List Strategy := [ruleParallel, recordSequential]

/-- The name of a strategy. -/
def name : Strategy → String
  | ruleParallel => "rule_parallel"
  | recordSequential => "record_sequential"

/-- The strategy with a name. -/
def ofName? (s : String) : Option Strategy := all.find? fun x => x.name = s

/-- A text as it is compared with the names: trimmed, in small letters, with underscores for hyphens. Only
    ASCII letters have small ones here. -/
def reduced (s : String) : String :=
  String.ofList ((Text.trimmed s.toList).map fun c => if c = '-' then '_' else c.toLower)

/-- The strategy that a text names, or the message that it names none. -/
def parse (s : String) : Except String Strategy :=
  match ofName? (reduced s) with
  | some x => .ok x
  | none => .error s!"未知的执行策略: {reduced s}"

end Strategy

/-! ## Settings -/

/-- The settings of the engine: how many workers run at a time, how many actions may be put off, how long an
    action may take in milliseconds, and the keys that identify a record. -/
structure EngineSettings where
  strategy : Strategy
  maxWorkers : Nat
  maxPendingActions : Nat
  actionTimeout : Nat
  identityKeys : List String

/-- Where rules and records are read from. -/
structure SourceSettings where
  rulesPath : String
  recordsPath : String

/-- What is written to the log. -/
structure LogSettings where
  serviceName : String
  level : String
  format : String

/-- All settings. -/
structure Settings where
  serviceName : String
  environment : String
  engine : EngineSettings
  source : SourceSettings
  log : LogSettings

/-- The settings of the engine where none are given. -/
def EngineSettings.standard : EngineSettings := ⟨.recordSequential, 4, 256, 5000, Fact.standardKeys⟩

/-- The files that are read where none are given. -/
def SourceSettings.standard : SourceSettings := ⟨"data/rules.json", "data/records.json"⟩

/-- The log where nothing is said about it. -/
def LogSettings.standard : LogSettings := ⟨"unknown-service", "info", "pretty"⟩

/-- The settings where none are given. Service and environment have no name then. -/
def Settings.standard : Settings := ⟨"", "", .standard, .standard, .standard⟩

/-- How long an action may take, in whole seconds. -/
def EngineSettings.timeoutSeconds (s : EngineSettings) : Nat := s.actionTimeout / 1000

/-- Whether the log is written as JSON. -/
def LogSettings.isJson (s : LogSettings) : Bool := s.format.toLower = "json"

/-- The log settings for a service. -/
def LogSettings.withServiceName (s : LogSettings) (name : String) : LogSettings :=
  { s with serviceName := name }

/-- Whether these are the settings of the production environment. -/
def Settings.isProduction (s : Settings) : Bool := s.environment = "production"

/-! ## Decoding -/

/-- What settings are decoded from: how such a thing is taken apart, and what it is as a number, a text, a
    list of texts or a strategy. -/
structure Form (α : Type) where
  parts : List String → α → Option (List (Option α))
  count : α → Option Nat
  text : α → Option String
  texts : α → Option (List String)
  strategy : α → Option Strategy

/-- A part that may be missing. -/
def partOr {α β : Type} (default : β) (read : α → Option β) : Option α → Option β
  | none => some default
  | some v => read v

variable {α : Type} (f : Form α)

/-- The settings of the engine. -/
def EngineSettings.decode? (v : α) : Option EngineSettings :=
  let d := EngineSettings.standard
  match f.parts ["strategy", "max_workers", "max_pending_actions", "action_timeout_ms", "identity_keys"] v with
  | some [strategy, workers, pending, timeout, keys] => do
    return ⟨← partOr d.strategy f.strategy strategy, ← partOr d.maxWorkers f.count workers,
      ← partOr d.maxPendingActions f.count pending, ← partOr d.actionTimeout f.count timeout,
      ← partOr d.identityKeys f.texts keys⟩
  | _ => none

/-- The settings of the source. -/
def SourceSettings.decode? (v : α) : Option SourceSettings :=
  let d := SourceSettings.standard
  match f.parts ["rules_path", "records_path"] v with
  | some [rules, records] => do
    return ⟨← partOr d.rulesPath f.text rules, ← partOr d.recordsPath f.text records⟩
  | _ => none

/-- The settings of the log. -/
def LogSettings.decode? (v : α) : Option LogSettings :=
  let d := LogSettings.standard
  match f.parts ["service_name", "log_level", "log_format"] v with
  | some [name, level, format] => do
    return ⟨← partOr d.serviceName f.text name, ← partOr d.level f.text level,
      ← partOr d.format f.text format⟩
  | _ => none

/-- All settings. -/
def Settings.decode? (v : α) : Option Settings :=
  let d := Settings.standard
  match f.parts ["service_name", "environment", "engine", "source", "observability"] v with
  | some [name, environment, engine, source, log] => do
    return ⟨← partOr d.serviceName f.text name, ← partOr d.environment f.text environment,
      ← partOr d.engine (EngineSettings.decode? f) engine,
      ← partOr d.source (SourceSettings.decode? f) source, ← partOr d.log (LogSettings.decode? f) log⟩
  | _ => none

/-! ## JSON values -/

/-- JSON values as they are: counts are integers that are not negative, and a strategy is its name, alone or
    as the key of a null. -/
def Form.strict : Form Value where
  parts := parts?
  count
    | .number (.int n _) => if 0 ≤ n then some n.toNat else none
    | _ => none
  text := Value.text?
  texts
    | .array items => items.mapM Value.text?
    | _ => none
  strategy
    | .string s => Strategy.ofName? s
    | .object [(key, .null)] => Strategy.ofName? key
    | _ => none

end Rulebook
