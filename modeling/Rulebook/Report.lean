import Rulebook.Source

/-!
# `Rulebook.Report` — runs as JSON values

What a run shows to the outside: results of actions, errors, outcomes, summaries and the records that reached
the sink. Parts that are absent are left out, except the identity of a fact, which is then null.

## Contents
* `ActionResult.encode`, `ErrorReport.encode`, `Outcome.encode` — the parts of a summary
* `Summary.encode` — a summary
* `Emission.encode` — a record at the sink
* `Validation.encode` — an entry of a file of rules
-/

namespace Rulebook

/-- A text, or null where there is none. -/
def textOrNull (s : Option String) : Value := (s.map Value.string).getD .null

/-- A field that is left out where there is no value. -/
def optionalField (key : String) (v : Option Value) : Fields := (v.map fun v => (key, v)).toList

/-- A count as a value. -/
def countValue (n : Nat) : Value := ((Number.ofInt? n).map Value.number).getD .null

/-- The value of the result of an action. -/
def ActionResult.encode (r : ActionResult) : Value :=
  .object <|
    [("action", .string r.action.name)] ++ optionalField "target" (r.target.map .string) ++
    optionalField "value" r.value

/-- The value of an error. -/
def ErrorReport.encode (e : ErrorReport) : Value :=
  .object <|
    optionalField "action" (e.cause.action?.map fun k => .string k.name) ++
    optionalField "fact_id" (e.factId.map .string) ++
    optionalField "fragment" (e.cause.fragment?.map .string) ++
    [("kind", .string e.kind.code), ("message", .string e.cause.message)] ++
    optionalField "rule_name" (e.rule.map .string)

/-- The value of an outcome. -/
def Outcome.encode (o : Outcome) : Value :=
  .object <|
    [("actions_applied", .array (o.applied.map ActionResult.encode)),
     ("errors", .array (o.errors.map ErrorReport.encode)),
     ("fact_id", textOrNull o.factId), ("fact_index", countValue o.factIndex)] ++
    (if o.fallback then [("fallback", .bool true)] else []) ++
    [("matched", .bool o.matched), ("rule_name", .string o.rule)] ++
    optionalField "updated_fact" (o.updated.map .object)

/-- The counts of a summary by name. -/
def Summary.counts (s : Summary) : Fields :=
  [("actions_failed", countValue s.actionsFailed), ("actions_succeeded", countValue s.actionsSucceeded),
   ("fallback_matches", countValue s.fallbackMatches), ("matched_pairs", countValue s.matchedPairs),
   ("records_evaluated", countValue s.recordsEvaluated), ("rules_registered", countValue s.rulesRegistered),
   ("skipped_records", countValue s.skippedRecords), ("total_pairs", countValue s.totalPairs)]

/-- The value of a summary under a strategy. -/
def Summary.encode (strategy : Strategy) (s : Summary) : Value :=
  .object <|
    Fields.extend (Fields.ofList s.counts)
      [("errors", .array (s.errors.map ErrorReport.encode)),
       ("outcomes", .array (s.outcomes.map Outcome.encode)), ("strategy", .string strategy.name)]

/-- The value of a record at the sink. -/
def Emission.encode (r : Emission) : Value :=
  .object
    [("fact_id", textOrNull r.factId), ("kind", .string r.kind.name), ("payload", r.payload),
     ("rule_name", .string r.rule)]

/-- The text of what is wrong with an entry. -/
def Finding.message : Finding → String
  | undecodable => "规则定义结构不合法"
  | refused e => e.message

/-- The value of an entry of a file of rules. -/
def Validation.encode (v : Validation) : Value :=
  .object <|
    optionalField "error" (v.finding.map fun f => .string f.message) ++
    [("name", .string v.name), ("valid", .bool v.finding.isNone)]

end Rulebook
