import Rulebook.Report
import Rulebook.Settings.Layers

/-!
# `Rulebook.CommandLine` — the commands of the program

`run` evaluates a file of rules on a file of records and shows the summary; it succeeds when there is no
error. `validate` checks a file of rules and shows what is wrong with each entry; it succeeds when nothing is.
What is given on the command line goes before the settings.

## Contents
* `Command`, `Command.parse` — commands and their options
* `Command.paths` — the files that a command reads
* `Command.answer` — what a command shows, and whether it succeeded
-/

namespace Rulebook

/-- A command with its options; what is not given is none. -/
inductive Command where
  | run (rules records : Option String) (strategy : Option Strategy) (maxWorkers : Option Nat) (pretty : Bool)
  | validate (rules : Option String)

namespace Command

/-! ## Options -/

/-- The options on a command line by name. An option that stands alone has no value. -/
def options (alone : List String) : List String → Except String (List (String × Option String))
  | [] => .ok []
  | name :: rest =>
    if alone.contains name then (options alone rest).map ((name, none) :: ·)
    else match rest with
      | value :: rest => (options alone rest).map ((name, some value) :: ·)
      | [] => .error s!"missing value for {name}"

/-- The value of an option that may be given once. -/
def once? (names : List String) (given : List (String × Option String)) :
    Except String (Option (Option String)) :=
  match given.filter fun o => names.contains o.1 with
  | [] => .ok none
  | [o] => .ok (some o.2)
  | o :: _ => .error s!"{o.1} is given more than once"

/-- The text of an option that may be given once. -/
def text? (names : List String) (given : List (String × Option String)) : Except String (Option String) :=
  (once? names given).map fun v => v.bind id

/-- The options among those given that a command does not have. -/
def refuseOthers (known : List String) (given : List (String × Option String)) : Except String Unit :=
  match given.find? fun o => !known.contains o.1 with
  | some o => .error s!"unknown option {o.1}"
  | none => .ok ()

/-- The command of a command line. -/
def parse : List String → Except String Command
  | "run" :: rest => do
    let given ← options ["--pretty"] rest
    refuseOthers ["--rules", "--records", "--strategy", "-s", "--max-workers", "--pretty"] given
    let strategy ← match ← text? ["--strategy", "-s"] given with
      | none => pure none
      | some s => (Strategy.parse s).map some
    let workers ← match ← text? ["--max-workers"] given with
      | none => pure none
      | some s => match Entry.countOfText? s with
        | some n => pure (some n)
        | none => throw s!"{s} is no number of workers"
    return run (← text? ["--rules"] given) (← text? ["--records"] given) strategy workers
      (← once? ["--pretty"] given).isSome
  | "validate" :: rest => do
    let given ← options [] rest
    refuseOthers ["--rules"] given
    return validate (← text? ["--rules"] given)
  | name :: _ => .error s!"unknown command {name}"
  | [] => .error "a command is needed: run or validate"

/-! ## Answers -/

/-- The files of rules and of records that a command reads. -/
def paths (s : Settings) : Command → String × Option String
  | run rules records _ _ _ => (rules.getD s.source.rulesPath, some (records.getD s.source.recordsPath))
  | validate rules => (rules.getD s.source.rulesPath, none)

/-- What a command shows, or why it fails, and whether it succeeded. -/
structure Answer where
  shown : Except String String
  succeeded : Bool

/-- The text of a failure of a run. -/
def failureText : RunError → String
  | .source e => "数据源错误: " ++ e.reason?.getD "文件无法读取或解析"
  | .abort .tooManyPermits => "too many permits"

/-- The answer of a command under settings, from the texts of the files that it reads. -/
def answer (s : Settings) (rulesText recordsText : Option String) : Command → Answer
  | run _ _ strategy workers pretty =>
    let engine := { s.engine with
      strategy := strategy.getD s.engine.strategy
      maxWorkers := workers.getD s.engine.maxWorkers }
    match runFrom engine .accepting (readRules rulesText) (readRecords recordsText) with
    | .error e => ⟨.error (failureText e), false⟩
    | .ok (summary, _) =>
      let v := summary.encode engine.strategy
      ⟨.ok (if pretty then v.pretty else v.text), summary.isSuccess⟩
  | validate _ =>
    match readRules rulesText with
    | .error e => ⟨.error (failureText (.source e)), false⟩
    | .ok batch =>
      let entries := Rulebook.validate batch
      ⟨.ok (Value.array (entries.map Validation.encode)).pretty, entries.all fun v => v.finding.isNone⟩

end Command

end Rulebook
