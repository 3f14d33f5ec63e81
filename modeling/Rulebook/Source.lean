import Rulebook.Run

/-!
# `Rulebook.Source` — rules and records from files

Rules and records are read from the texts of two files. A file that cannot be read, is no JSON or has neither
form of its document makes the whole source fail, rules first. One rule that cannot be decoded does not.

## Contents
* `SourceError` — why a source fails
* `readRules`, `readRecords` — the contents of the two files
* `runFrom` — a run on what a source gives
* `Validation`, `validate` — every rule of a file checked on its own
-/

namespace Rulebook

/-! ## Sources -/

/-- Why a source fails. -/
inductive SourceError where
  | unreadable
  | malformed
  | wrongForm (e : DocumentError)
  | unavailable (reason : String)
  deriving DecidableEq

/-- The text of a failure where the reason is the library's own. -/
def SourceError.reason? : SourceError → Option String
  | unreadable | malformed => none
  | wrongForm e => some e.message
  | unavailable reason => some reason

/-- The JSON value of the text of a file; none stands for a file that cannot be read. -/
def readDocument (text : Option String) : Except SourceError Value :=
  match text with
  | none => .error .unreadable
  | some text =>
    match Value.read Value.fileDepth text with
    | none => .error .malformed
    | some document => .ok document

/-- The rules of a file. -/
def readRules (text : Option String) : Except SourceError RuleBatch := do
  (RuleBatch.ofDocument (← readDocument text)).mapError .wrongForm

/-- The records of a file. -/
def readRecords (text : Option String) : Except SourceError (List Value) := do
  (recordsOfDocument (← readDocument text)).mapError .wrongForm

/-! ## Runs -/

/-- Why a run on a source gives no summary. -/
inductive RunError where
  | source (e : SourceError)
  | abort (a : Run.Abort)
  deriving DecidableEq

/-- A run on the rules and records of a source, each of which may fail; rules are looked at first. -/
def runFrom (s : EngineSettings) (sink : Sink) (rules : Except SourceError RuleBatch)
    (records : Except SourceError (List Value)) : Except RunError (Summary × Log) := do
  let batch ← rules.mapError .source
  let records ← records.mapError .source
  (Run.run s sink batch records).mapError .abort

/-! ## Validation -/

/-- What is wrong with an entry of a file of rules: it is no rule, or the rule is refused. -/
inductive Finding where
  | undecodable
  | refused (e : RuleError)
  deriving DecidableEq

/-- An entry of a file of rules by its name, and what is wrong with it. -/
structure Validation where
  name : String
  finding : Option Finding
  deriving DecidableEq

/-- The rules checked one after the other. A name is used up by the first rule that has it, even if that
    rule is refused. -/
def validateAll (seen : List String) : List RuleDefinition → List Validation
  | [] => []
  | d :: rest =>
    if d.name = fallbackName ∨ d.name ∈ seen then
      ⟨d.name, some (.refused (.duplicateName d.name))⟩ :: validateAll seen rest
    else
      let finding := match d.compile with
        | .ok _ => none
        | .error e => some (.refused e)
      ⟨d.name, finding⟩ :: validateAll (d.name :: seen) rest

/-- Every entry of a file of rules: those that are no rules first, then the rules. -/
def validate (batch : RuleBatch) : List Validation :=
  batch.rejected.map (fun r => ⟨r.name.getD s!"#{r.index}", some .undecodable⟩) ++
  validateAll [] batch.definitions

end Rulebook
