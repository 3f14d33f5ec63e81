import Rulebook.Comparison
import Rulebook.Expression.Evaluation
import Rulebook.Rule.Definition

/-!
# `Rulebook.Rule.Compiled` — rules checked and ready to run

Compiling a rule checks its name, the groups and tests of its condition and the targets of its updates, in
the order in which they are written; the first thing that is wrong is the error. An update with an expression
that cannot be read still compiles: the error is kept and reported when the action runs.

## Contents
* `Place`, `Defect`, `RuleError` — what is wrong with a rule, and where
* `Operand`, `Predicate`, `Predicate.holds` — a checked condition and its meaning
* `Action`, `CompiledRule` — checked actions and rules
* `RuleDefinition.compile` — the check
* `CompiledRule.requiredFields` — the paths that a rule reads
-/

namespace Rulebook

/-! ## Errors -/

/-- A place in a rule: a condition by the positions of the members on the way to it, or an action by its
    own position. -/
inductive Place where
  | condition (route : List Nat)
  | action (index : Nat)
  deriving DecidableEq

/-- A place as it is named in a message. -/
def Place.text : Place → String
  | condition route => ".".intercalate ("condition" :: route.map Nat.repr)
  | action i => s!"actions.{i}"

/-- What is wrong in a rule. -/
inductive Defect where
  | blankName
  | emptyGroup (how : Combinator) (place : Place)
  | invalidPath (place : Place) (e : InvalidPath)
  | bothOperands (place : Place)
  | noOperand (place : Place)
  deriving DecidableEq

/-- The text of a defect. -/
def Defect.message : Defect → String
  | blankName => "规则名称不能为空"
  | emptyGroup how place => s!"{how.title} 组 '{place.text}' 不能为空"
  | invalidPath place e => s!"'{place.text}' {e.message}"
  | bothOperands place => s!"条件 '{place.text}' 不能同时指定 value 和 value_field"
  | noOperand place => s!"条件 '{place.text}' 缺少 value 或 value_field"

/-- Why a rule is refused. -/
inductive RuleError where
  | unsupportedOperator (rule operator : String)
  | defective (rule : String) (defect : Defect)
  | duplicateName (name : String)
  deriving DecidableEq

/-- The text of the reason. -/
def RuleError.message : RuleError → String
  | unsupportedOperator rule operator => s!"不支持的操作符: 规则 '{rule}' 使用了 '{operator}'"
  | defective rule defect => s!"规则编译失败: 规则 '{rule}' {defect.message}"
  | duplicateName name => s!"规则名称重复: {name}"

/-! ## Conditions -/

/-- What a field is compared with. -/
inductive Operand where
  | literal (v : Value)
  | field (p : Path)

/-- The value of an operand on a fact. -/
def Operand.value? (fact : Fact) : Operand → Option Value
  | literal v => some v
  | field p => fact.get p

/-- A checked condition. -/
inductive Predicate where
  | test (field : Path) (op : Operator) (operand : Operand)
  | group (how : Combinator) (members : List Predicate)

namespace Predicate

mutual

/-- Whether a condition holds on a fact. -/
def holds (fact : Fact) : Predicate → Bool
  | test field op operand => op.holds (fact.get field) (operand.value? fact)
  | group .all members => allHold fact members
  | group .any members => anyHolds fact members

/-- Whether every condition of a list holds. -/
def allHold (fact : Fact) : List Predicate → Bool
  | [] => true
  | p :: ps => p.holds fact && allHold fact ps

/-- Whether some condition of a list holds. -/
def anyHolds (fact : Fact) : List Predicate → Bool
  | [] => false
  | p :: ps => p.holds fact || anyHolds fact ps

end

mutual

/-- The paths that a condition reads. -/
def paths : Predicate → List Path
  | test field _ (.literal _) => [field]
  | test field _ (.field p) => [field, p]
  | group _ members => pathsOfAll members

/-- The paths that the conditions of a list read. -/
def pathsOfAll : List Predicate → List Path
  | [] => []
  | p :: ps => p.paths ++ pathsOfAll ps

end

end Predicate

/-- The path of a text in some place of a rule. -/
def pathAt (rule : String) (place : Place) (text : String) : Except RuleError Path :=
  (Path.parse text).mapError fun e => .defective rule (.invalidPath place e)

/-- The checked form of a test. -/
def FieldTest.compile (rule : String) (place : Place) (t : FieldTest) : Except RuleError Predicate := do
  let some op := Operator.parse t.operator | throw (.unsupportedOperator rule t.operator)
  let field ← pathAt rule place t.field
  match t.value, t.valueField with
  | some v, none => return .test field op (.literal v)
  | none, some text => return .test field op (.field (← pathAt rule place text))
  | some _, some _ => throw (.defective rule (.bothOperands place))
  | none, none => throw (.defective rule (.noOperand place))

mutual

/-- The checked form of a condition at the end of `route`. A group must have a member. -/
def Condition.compile (rule : String) (route : List Nat) : Condition → Except RuleError Predicate
  | .test t => t.compile rule (.condition route)
  | .group how [] => .error (.defective rule (.emptyGroup how (.condition route)))
  | .group how (c :: cs) => do
    let members ← Condition.compileMembers rule route 0 (c :: cs)
    return .group how members

/-- The checked forms of the members of a group, from the one at position `i` on. -/
def Condition.compileMembers (rule : String) (route : List Nat) (i : Nat) :
    List Condition → Except RuleError (List Predicate)
  | [] => .ok []
  | c :: cs => do
    let p ← Condition.compile rule (route ++ [i]) c
    let ps ← Condition.compileMembers rule route (i + 1) cs
    return p :: ps

end

/-! ## Actions -/

/-- A checked action. The expression of an update is read once; what is wrong with it is kept. -/
inductive Action where
  | update (target : Path) (source : String) (expression : Except ExpressionError Expression)
  | redistribute (params : Fields)
  | alert (message : String)
  | notify (recipient : Option String) (template : String)

/-- The kind of an action. -/
def Action.kind : Action → ActionKind
  | update _ _ _ => .update
  | redistribute _ => .redistribute
  | alert _ => .alert
  | notify _ _ => .notify

/-- The paths that the expression of an update reads. -/
def Action.paths : Action → List Path
  | update _ _ (.ok e) => e.fields
  | _ => []

/-- The checked form of the action at position `i`. -/
def ActionSpec.compile (rule : String) (i : Nat) : ActionSpec → Except RuleError Action
  | update target expression => do
    return .update (← pathAt rule (.action i) target) expression (Expression.parse expression)
  | redistribute params => .ok (.redistribute params)
  | alert message => .ok (.alert message)
  | notify recipient template => .ok (.notify recipient template)

/-- The checked forms of the actions from position `i` on. -/
def compileActions (rule : String) (i : Nat) : List ActionSpec → Except RuleError (List Action)
  | [] => .ok []
  | a :: rest => do
    let action ← a.compile rule i
    let actions ← compileActions rule (i + 1) rest
    return action :: actions

/-! ## Rules -/

/-- A rule that is ready to run, with the definition that it comes from. -/
structure CompiledRule where
  definition : RuleDefinition
  condition : Predicate
  actions : List Action

namespace CompiledRule

/-- The name of a rule. -/
def name (r : CompiledRule) : String := r.definition.name

/-- Whether the condition holds on a fact. -/
def applies (r : CompiledRule) (fact : Fact) : Bool := r.condition.holds fact

end CompiledRule

/-- The rule ready to run, or the first thing that is wrong with it. -/
def RuleDefinition.compile (d : RuleDefinition) : Except RuleError CompiledRule := do
  if Text.isBlankText d.name then throw (.defective d.name .blankName)
  let condition ← (Condition.group d.condition.how d.condition.members).compile d.name []
  let actions ← compileActions d.name 0 d.actions
  return ⟨d, condition, actions⟩

/-! ## Required fields -/

/-- `names` with `name` in its place by order, each name once. -/
def insertName (name : String) : List String → List String
  | [] => [name]
  | n :: rest =>
    if name = n then n :: rest
    else if name < n then name :: n :: rest
    else n :: insertName name rest

/-- Names in order, each once. -/
def distinctNames (names : List String) : List String := names.foldr insertName []

/-- The texts of the paths that a rule reads, in its condition and in the expressions of its updates. -/
def CompiledRule.requiredFields (r : CompiledRule) : List String :=
  distinctNames ((r.condition.paths ++ r.actions.flatMap Action.paths).map Path.text)

end Rulebook
