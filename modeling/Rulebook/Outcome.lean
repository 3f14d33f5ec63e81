import Rulebook.Execution

/-!
# `Rulebook.Outcome` — what a rule does with a fact

The outcome of a rule on a fact says whether the condition held, which actions were applied, which errors
there were, and how the fact looks if an update was applied. A fact without an identity has one more
outcome, the fallback.

## Contents
* `ErrorKind`, `Cause`, `ErrorReport` — errors as a run reports them
* `Outcome` — the outcome of a rule on a fact
* `CompiledRule.evaluate`, `fallback?` — outcomes before any action
* `CompiledRule.act`, `CompiledRule.settle` — the actions of a rule that matched
-/

namespace Rulebook

/-! ## Errors -/

/-- The kinds of errors. -/
inductive ErrorKind where
  | compile
  | unsupportedOperator
  | duplicateRuleName
  | contextMissing
  | expressionEvaluation
  | missingRecipient
  | actionFailed
  | actionTimeout
  | serialization
  | dispatch
  | source
  deriving DecidableEq

namespace ErrorKind

/-- The kinds, each once. -/
def all : List ErrorKind :=
  [compile, unsupportedOperator, duplicateRuleName, contextMissing, expressionEvaluation,
    missingRecipient, actionFailed, actionTimeout, serialization, dispatch, source]

/-- The code of a kind. -/
def code : ErrorKind → String
  | compile => "COMPILE_ERROR"
  | unsupportedOperator => "UNSUPPORTED_OPERATOR"
  | duplicateRuleName => "DUPLICATE_RULE_NAME"
  | contextMissing => "CONTEXT_MISSING"
  | expressionEvaluation => "EXPRESSION_EVALUATION"
  | missingRecipient => "MISSING_RECIPIENT"
  | actionFailed => "ACTION_FAILED"
  | actionTimeout => "ACTION_TIMEOUT"
  | serialization => "SERIALIZATION_ERROR"
  | dispatch => "DISPATCH_ERROR"
  | source => "SOURCE_ERROR"

end ErrorKind

/-- The kind of a reason to refuse a rule. -/
def RuleError.kind : RuleError → ErrorKind
  | unsupportedOperator _ _ => .unsupportedOperator
  | defective _ _ => .compile
  | duplicateName _ => .duplicateRuleName

/-- The kind of a reason for an action to fail. -/
def ActionError.kind : ActionError → ErrorKind
  | contextMissing => .contextMissing
  | expression _ => .expressionEvaluation
  | missingRecipient => .missingRecipient
  | invalidTarget _ _ | refused _ => .actionFailed
  | timedOut _ => .actionTimeout

/-- The text of a crash. -/
def Crash.message (c : Crash) : String :=
  match c.reason with
  | some reason => s!"任务 panic: {reason}"
  | none => "任务 panic"

/-- Why there is an error in a run: an entry that is no rule, a rule that is refused, a record that is no
    object, an action that failed, or a sink that crashed. -/
inductive Cause where
  | rejected (index : Nat)
  | refused (e : RuleError)
  | unusable (e : NotAnObject)
  | action (kind : ActionKind) (e : ActionError)
  | worker (e : RuleError)
  | crash (c : Crash)
  deriving DecidableEq

namespace Cause

/-- The kind of an error with this cause. A worker that fails and a crash are both failures of dispatch. -/
def kind : Cause → ErrorKind
  | rejected _ => .compile
  | refused e => e.kind
  | unusable _ => .serialization
  | action _ e => e.kind
  | worker _ | crash _ => .dispatch

/-- The text of an error with this cause. -/
def message : Cause → String
  | rejected index => s!"第 {index} 条规则结构不合法"
  | refused e | worker e => e.message
  | unusable e => e.message
  | action _ e => e.message
  | crash c => c.message

/-- The kind of the action that failed. -/
def action? : Cause → Option ActionKind
  | action kind _ => some kind
  | _ => none

/-- The part of an expression that the error concerns. -/
def fragment? : Cause → Option String
  | action _ e => e.fragment?
  | _ => none

end Cause

/-- An error of a run, with the rule and the fact that it concerns. -/
structure ErrorReport where
  cause : Cause
  rule : Option String
  factId : Option String
  deriving DecidableEq

/-- The kind of an error. -/
def ErrorReport.kind (e : ErrorReport) : ErrorKind := e.cause.kind

/-! ## Outcomes -/

/-- The outcome of a rule on a fact. -/
structure Outcome where
  rule : String
  factId : Option String
  factIndex : Nat
  matched : Bool
  fallback : Bool
  applied : List ActionResult
  errors : List ErrorReport
  updated : Option Fields

/-- The name under which a fact without an identity matches. No rule may have it. -/
def fallbackName : String := "default"

/-- The outcome of a fact without an identity: matched, without actions. -/
def fallback? (fact : Fact) : Option Outcome :=
  match fact.id with
  | some _ => none
  | none => some ⟨fallbackName, none, fact.index, true, true, [], [], none⟩

namespace CompiledRule

/-- The outcome of a rule on a fact before its actions. -/
def evaluate (r : CompiledRule) (fact : Fact) : Outcome :=
  ⟨r.name, fact.id, fact.index, r.applies fact, false, [], [], none⟩

/-- The outcome of a rule with what its actions achieved. -/
def conclude (r : CompiledRule) (fact : Fact) (report : Report) : Outcome :=
  let o := r.evaluate fact
  { o with
    applied := report.applied
    errors := report.failed.map fun (kind, e) => ⟨.action kind e, some r.name, fact.id⟩
    updated := if report.updated then report.fact.map Fact.fields else none }

/-- The outcome of a rule whose actions were broken off: none of them counts as applied. -/
def brokenOff (r : CompiledRule) (fact : Fact) (c : Crash) : Outcome :=
  let o := r.evaluate fact
  { o with errors := [⟨.crash c, some r.name, fact.id⟩] }

/-- Whether there is anything to perform for a rule on a fact. -/
def isDue (r : CompiledRule) (fact : Fact) : Bool := r.applies fact && !r.actions.isEmpty

/-- The outcome of a rule on a fact with its actions, or the crash that broke them off. -/
def act (timeout : Nat) (r : CompiledRule) (fact : Fact) : Task (Except Crash Outcome) :=
  if r.isDue fact then (r.perform timeout (some fact)).map fun x => x.map (r.conclude fact)
  else .done (.ok (r.evaluate fact))

/-- The outcome of a rule on a fact with its actions; a crash stays inside of it. -/
def settle (timeout : Nat) (r : CompiledRule) (fact : Fact) : Task Outcome :=
  (r.act timeout fact).map fun
    | .ok o => o
    | .error c => r.brokenOff fact c

end CompiledRule

end Rulebook
