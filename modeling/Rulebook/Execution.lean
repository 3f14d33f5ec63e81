import Rulebook.Rule.Compiled
import Rulebook.Sink
import Rulebook.Template

/-!
# `Rulebook.Execution` — the actions of a rule, one after the other

The actions of a rule run in their order on a working copy of the fact. Each one first works out what it
hands over and how the fact looks after it; only when the sink accepts the record is the new fact taken
over. An action that fails is reported and the next one runs all the same. Only a crash of the sink ends
the whole series.

## Contents
* `ActionError`, `ActionResult` — how an action ends
* `Action.prepare` — everything an action does before its record reaches the sink
* `Report`, `performAll` — the whole series
-/

namespace Rulebook

/-! ## Errors and results -/

/-- Why an action fails. -/
inductive ActionError where
  | contextMissing
  | expression (e : ExpressionError)
  | missingRecipient
  | invalidTarget (target : Path) (e : Obstacle)
  | refused (reason : String)
  | timedOut (milliseconds : Nat)
  deriving DecidableEq

namespace ActionError

/-- The text of the reason. -/
def message : ActionError → String
  | contextMissing => "动作上下文缺失: update 动作没有可用的事实"
  | expression e => s!"表达式求值失败: {e.text}"
  | missingRecipient => "通知缺少接收人"
  | invalidTarget target e => s!"无效的目标字段 '{target.text}': 中间字段 '{e.segment}' 是 {e.kind}"
  | refused reason => s!"动作输出失败: {reason}"
  | timedOut ms => s!"动作执行超时: {ms}ms"

/-- The part of an expression that the error concerns. -/
def fragment? : ActionError → Option String
  | expression e => some e.fragment
  | _ => none

end ActionError

/-- What an action achieved. -/
structure ActionResult where
  action : ActionKind
  target : Option String
  value : Option Value

/-- A crash of the sink, with its reason where it gives one. -/
structure Crash where
  reason : Option String
  deriving DecidableEq

/-! ## One action -/

/-- What an action hands over, and what holds once it is accepted. -/
structure Offer where
  emission : Emission
  result : ActionResult
  fact : Option Fact

/-- The recipient of a notification: a text that is not blank, without the blanks around it. -/
def recipient? (text : Option String) : Option String :=
  (text.map Text.trim).filter fun r => !r.isEmpty

/-- Everything an action does before its record reaches the sink. -/
def Action.prepare (rule : String) (fact : Option Fact) (a : Action) : Except ActionError Offer :=
  let record (payload : Value) : Emission := ⟨a.kind, rule, fact.bind Fact.id, payload⟩
  match a with
  | update target _ expression => do
    let some current := fact | throw .contextMissing
    let e ← expression.mapError .expression
    let value ← (e.evaluateValue current).mapError .expression
    let (staged, obstacle) := current.set target value
    if let some e := obstacle then throw (.invalidTarget target e)
    let payload := Value.object [("target", .string target.text), ("value", value)]
    return ⟨record payload, ⟨.update, some target.text, some value⟩, some staged⟩
  | redistribute params =>
    .ok ⟨record (.object params), ⟨.redistribute, none, some (.object params)⟩, fact⟩
  | alert message =>
    .ok ⟨record (.object [("message", .string message)]), ⟨.alert, none, some (.string message)⟩, fact⟩
  | notify recipient template =>
    match recipient? recipient with
    | none => .error .missingRecipient
    | some r =>
      let message := Template.render template fact
      let payload := Value.object
        [("message", .string message), ("recipient", .string r), ("template", .string template)]
      .ok ⟨record payload, ⟨.notify, some r, some (.string message)⟩, fact⟩

/-! ## All actions -/

/-- What became of the actions so far: those that were applied and those that failed, each in their order,
    and the working copy of the fact. -/
structure Report where
  applied : List ActionResult
  failed : List (ActionKind × ActionError)
  fact : Option Fact

namespace Report

/-- The report with one more action applied. -/
def apply (r : Report) (o : Offer) : Report := { r with applied := r.applied ++ [o.result], fact := o.fact }

/-- The report with one more action failed. -/
def fail (r : Report) (kind : ActionKind) (e : ActionError) : Report :=
  { r with failed := r.failed ++ [(kind, e)] }

/-- Whether an update was applied. -/
def updated (r : Report) : Bool := r.applied.any fun a => a.action = .update

end Report

/-- The actions performed in their order, within a limit in milliseconds for each. -/
def performAll (timeout : Nat) (rule : String) : List Action → Report → Task (Except Crash Report)
  | [], report => .done (.ok report)
  | a :: rest, report =>
    match a.prepare rule report.fact with
    | .error e => performAll timeout rule rest (report.fail a.kind e)
    | .ok offer =>
      .emit offer.emission fun
        | .accept => performAll timeout rule rest (report.apply offer)
        | .refuse reason => performAll timeout rule rest (report.fail a.kind (.refused reason))
        | .hang => performAll timeout rule rest (report.fail a.kind (.timedOut timeout))
        | .crash reason => .done (.error ⟨reason⟩)

/-- All actions of a rule on a fact. -/
def CompiledRule.perform (timeout : Nat) (r : CompiledRule) (fact : Option Fact) :
    Task (Except Crash Report) :=
  performAll timeout r.name r.actions ⟨[], [], fact⟩

end Rulebook
