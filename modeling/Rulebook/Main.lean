import Rulebook.CommandLine

/-!
# `Rulebook.Main` — the program

Reads the settings, the files and the command line, and prints what the command answers. Nothing is decided
here.
-/

namespace Rulebook.Main

/-- The service that the program runs as. -/
def service : String := "rule-engine"

/-- The text of a file, if it can be read. -/
def readText? (path : String) : IO (Option String) := do
  try
    return some (← IO.FS.readFile path)
  catch _ => return none

/-- The variables among `names` that are set. -/
def readVars (names : List String) : IO (List (String × String)) := do
  let found ← names.mapM fun name => do
    return (← IO.getEnv name).map fun text => (name, text)
  return found.filterMap id

/-- The settings, or the standard ones where they cannot be read. -/
def readSettings : IO Settings := do
  let directory := (← IO.getEnv "CONFIG_DIR").getD "config"
  let vars ← readVars Settings.variableNames
  let environment := Settings.environmentOf vars
  let names := Settings.candidateFiles service environment
  let texts ← names.mapM fun name => do
    return (name, ← readText? (directory ++ "/" ++ name))
  let files := fun name => (texts.find? fun t => t.1 = name).bind (·.2)
  match Settings.load? service environment files vars with
  | some s => return s
  | none =>
    IO.eprintln "配置加载失败，使用默认配置"
    return .standard

end Rulebook.Main

open Rulebook in
/-- The program: exit code 0 when the command succeeds, 1 when it does not, and 2 when there is none. -/
def main (args : List String) : IO UInt32 := do
  match Command.parse args with
  | .error message =>
    IO.eprintln message
    return 2
  | .ok command =>
    let settings ← Main.readSettings
    let (rules, records) := command.paths settings
    let rulesText ← Main.readText? rules
    let recordsText ← match records with
      | some path => Main.readText? path
      | none => pure none
    let answer := command.answer settings rulesText recordsText
    match answer.shown with
    | .ok text => IO.println text
    | .error message => IO.eprintln message
    return if answer.succeeded then 0 else 1
