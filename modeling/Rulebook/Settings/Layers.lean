import Rulebook.Settings.Toml

/-!
# `Rulebook.Settings.Layers` — settings from files and variables, layer by layer

The layers are, each over the ones before: the names of service and environment, the files `default.toml`,
the one of the environment and the one of the service, and the variables whose names start with `PACING_`.
Where there is no such file, one with an ending more is read, which may be JSON; without any, the layer is
empty. A malformed file makes the settings malformed. The keys of a file and the names of variables are routes.

## Contents
* `Layer`, `Layers.ofVariable` — layers, and the one of a variable
* `Format`, `findFile?`, `Layers.ofFile?` — files and their layers
* `Settings.load?` — the settings of a service in an environment
* `Settings.loadCurrent?` — the same, with the environment taken from a variable
* `Settings.candidateFiles`, `Settings.variableNames` — the files and the variables that matter
-/

namespace Rulebook

/-- Entries and the routes that they are set at, one after the other. -/
abbrev Layer := List (Route × Entry)

/-- The settings with a layer over them. -/
def Entry.setAll (settings : Entry) (layer : Layer) : Entry :=
  layer.foldl (fun s part => s.set part.1 part.2) settings

namespace Layers

/-! ## Variables -/

/-- What the name of a variable of settings starts with, in small letters. -/
def marker : String := "pacing_"

/-- A character in small letters, as far as the outcome is an ASCII letter: the Kelvin sign is the one other
    character whose small letter is. -/
def lowered (c : Char) : Char := if c = '\u212A' then 'k' else c.toLower

/-- A float that a text writes, in the notation of numbers with a point anywhere among its digits. -/
def floatOfText? (s : String) : Option Binary64 :=
  let (negative, cs) := Toml.sign s.toList
  let word := (String.ofList cs).toLower
  if word = "inf" ∨ word = "infinity" then some (.infinite negative)
  else if word = "nan" then some .nan
  else
    let whole := cs.takeWhile Char.isDigit
    let rest := cs.drop whole.length
    let (fraction, rest) := match rest with
      | '.' :: rest =>
        let ds := rest.takeWhile Char.isDigit
        (ds, rest.drop ds.length)
      | rest => ([], rest)
    let exponent := Text.exponent? rest
    let complete := rest.length == (exponent.map (·.length)).getD 0
    if (whole.isEmpty && fraction.isEmpty) || !complete then none
    else
      let power := (exponent.map (·.power)).getD 0
      some (.ofDecimal negative ⟨Text.digitsValue (whole ++ fraction), power - fraction.length⟩)

/-- A text with dots in place of double underscores. -/
def dotted : List Char → List Char
  | '_' :: '_' :: cs => '.' :: dotted cs
  | c :: cs => c :: dotted cs
  | [] => []

/-- The setting whose variable may hold a list, with commas between the items. -/
def listKey : String := "engine.identity_keys"

/-- The entry that the text of a variable stands for. -/
def valueOf (key text : String) : Entry :=
  if text.toLower = "true" then .truth true
  else if text.toLower = "false" then .truth false
  else match Route.int? text.toList, floatOfText? text with
    | some n, _ => .int n
    | none, some x => .float x
    | none, none =>
      if key = listKey then .list ((Text.splitText ',' text).map .text)
      else .text text

/-- The layer of a variable; empty if its name does not start as it must. -/
def ofVariable (name text : String) : Layer :=
  let name := name.toList.map lowered
  if marker.toList.isPrefixOf name then
    let key := String.ofList (dotted (name.drop marker.length))
    [(Route.ofText key, valueOf key text)]
  else []

/-! ## Files -/

/-- How the text of a settings file is written. -/
inductive Format where
  | toml
  | json

namespace Format

/-- The formats, each once. -/
def all : List Format := [toml, json]

/-- What the name of a file in a format ends in. -/
def ending : Format → String
  | toml => ".toml"
  | json => ".json"

/-- The entries that a text holds, which must be those of a table. -/
def entries? (text : String) : Format → Option (List (String × Entry))
  | toml => Toml.parse text
  | json =>
    match Value.read Value.fileDepth text with
    | some (.object fields) => some (Entry.ofFields fields)
    | _ => none

end Format

/-- The name of a file without the directories before it. -/
def baseName (path : String) : String := ((Text.splitText '/' path).getLast?).getD path

/-- The format and the text of a settings file, whose name ends as a TOML file does. One that is called nothing
    but that ending does not count. Where there is no file, the one with an ending more serves. -/
def findFile? (files : String → Option String) (name : String) : Option (Format × String) :=
  match files name with
  | some text => if baseName name = Format.toml.ending then none else some (.toml, text)
  | none => Format.all.findSome? fun f => (files (name ++ f.ending)).map fun text => (f, text)

/-- The layer of a file, which need not exist. -/
def ofFile? (files : String → Option String) (name : String) : Option Layer :=
  match findFile? files name with
  | none => some []
  | some (format, text) =>
    (format.entries? (Toml.skipOrderMark text)).map fun es => es.map fun e => (Route.ofText e.1, e.2)

end Layers

/-! ## Loading -/

/-- The names of the files of a service in an environment, each over the ones before. -/
def Settings.fileNames (service environment : String) : List String :=
  ["default", environment, service].map (· ++ Layers.Format.toml.ending)

/-- The names of the files that may be read for a service in an environment. -/
def Settings.candidateFiles (service environment : String) : List String :=
  (Settings.fileNames service environment).flatMap fun name =>
    name :: Layers.Format.all.map fun f => name ++ f.ending

/-- The settings of a service in an environment, from the files by name and the variables. -/
def Settings.load? (service environment : String) (files : String → Option String)
    (vars : List (String × String)) : Option Settings := do
  let names : Layer :=
    [([.key "service_name"], .text service), ([.key "environment"], .text environment)]
  let fromFiles ← (Settings.fileNames service environment).mapM (Layers.ofFile? files)
  let fromVars := vars.map fun v => Layers.ofVariable v.1 v.2
  Settings.decode? Form.loose ((names :: fromFiles ++ fromVars).foldl Entry.setAll (.table []))

/-- The environment that holds when no variable names one. -/
def standardEnvironment : String := "development"

/-- The variable that names the environment. -/
def environmentVariable : String := "PACING_ENV"

/-- The environment that the variables name. -/
def Settings.environmentOf (vars : List (String × String)) : String :=
  ((vars.find? fun v => v.1 = environmentVariable).map (·.2)).getD standardEnvironment

/-- The settings of a service in the environment that the variables name. -/
def Settings.loadCurrent? (service : String) (files : String → Option String)
    (vars : List (String × String)) : Option Settings :=
  Settings.load? service (Settings.environmentOf vars) files vars

/-- The variables that name the environment or a setting. -/
def Settings.variableNames : List String :=
  [environmentVariable, "PACING_SERVICE_NAME", "PACING_ENVIRONMENT", "PACING_ENGINE__STRATEGY",
    "PACING_ENGINE__MAX_WORKERS", "PACING_ENGINE__MAX_PENDING_ACTIONS", "PACING_ENGINE__ACTION_TIMEOUT_MS",
    "PACING_ENGINE__IDENTITY_KEYS", "PACING_SOURCE__RULES_PATH", "PACING_SOURCE__RECORDS_PATH",
    "PACING_OBSERVABILITY__SERVICE_NAME", "PACING_OBSERVABILITY__LOG_LEVEL",
    "PACING_OBSERVABILITY__LOG_FORMAT"]

end Rulebook
