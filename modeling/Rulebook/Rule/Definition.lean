import Rulebook.Value.Basic

/-!
# `Rulebook.Rule.Definition` — rules as they are written

A rule has a name, a condition and actions. The condition is a group: all of its members must hold, or any
of them. A member is a test of a field or a group again. Operators, paths and expressions are still plain
text here; `Rulebook.Rule.Compiled` checks them.

## Contents
* `Combinator`, `FieldTest`, `Condition`, `Group` — conditions
* `ActionKind`, `ActionSpec` — actions
* `RuleDefinition` — a rule
* `RuleDefinition.same`, `RuleDefinition.normal` — equality, and literals in normal form
-/

namespace Rulebook

/-! ## Conditions -/

/-- How the members of a group are combined. -/
inductive Combinator where
  | all
  | any
  deriving DecidableEq

/-- The key of a group in a document. -/
def Combinator.key : Combinator → String
  | all => "all"
  | any => "any"

/-- The name of a combinator in a message. -/
def Combinator.title : Combinator → String
  | all => "ALL"
  | any => "ANY"

/-- A test of a field against a literal or against another field. A rule can be written with both or
    neither of them, although none such is accepted. -/
structure FieldTest where
  field : String
  operator : String
  value : Option Value
  valueField : Option String

/-- A member of a group. -/
inductive Condition where
  | test (t : FieldTest)
  | group (how : Combinator) (members : List Condition)

/-- A group of conditions. -/
structure Group where
  how : Combinator
  members : List Condition

/-- A test against a literal. -/
def FieldTest.literal (field operator : String) (value : Value) : FieldTest :=
  ⟨field, operator, some value, none⟩

/-- A test against another field. -/
def FieldTest.reference (field operator valueField : String) : FieldTest :=
  ⟨field, operator, none, some valueField⟩

/-! ## Actions -/

/-- The kinds of actions. -/
inductive ActionKind where
  | update
  | redistribute
  | alert
  | notify
  deriving DecidableEq

/-- The name of a kind in documents and records. -/
def ActionKind.name : ActionKind → String
  | update => "update"
  | redistribute => "redistribute"
  | alert => "alert"
  | notify => "notify"

/-- An action as it is written. -/
inductive ActionSpec where
  | update (target expression : String)
  | redistribute (params : Fields)
  | alert (message : String)
  | notify (recipient : Option String) (template : String)

/-- The kind of an action. -/
def ActionSpec.kind : ActionSpec → ActionKind
  | update _ _ => .update
  | redistribute _ => .redistribute
  | alert _ => .alert
  | notify _ _ => .notify

/-! ## Rules -/

/-- A rule as it is written. -/
structure RuleDefinition where
  name : String
  condition : Group
  actions : List ActionSpec

/-! ## Equality -/

/-- Equality of tests, with literals as values. -/
def FieldTest.same (s t : FieldTest) : Bool :=
  s.field == t.field && s.operator == t.operator && s.valueField == t.valueField &&
  match s.value, t.value with
  | none, none => true
  | some v, some w => v.same w
  | _, _ => false

mutual

/-- Equality of conditions. -/
def Condition.same : Condition → Condition → Bool
  | .test s, .test t => s.same t
  | .group h xs, .group i ys => h == i && Condition.sameMembers xs ys
  | _, _ => false

/-- Equality of the members of two groups, one by one. -/
def Condition.sameMembers : List Condition → List Condition → Bool
  | [], [] => true
  | x :: xs, y :: ys => x.same y && Condition.sameMembers xs ys
  | _, _ => false

end

/-- Equality of actions, with parameters as values. -/
def ActionSpec.same : ActionSpec → ActionSpec → Bool
  | update t e, update t' e' => t == t' && e == e'
  | redistribute p, redistribute p' => Value.sameFields p p'
  | alert m, alert m' => m == m'
  | notify r t, notify r' t' => r == r' && t == t'
  | _, _ => false

/-- Equality of rules. -/
def RuleDefinition.same (d e : RuleDefinition) : Bool :=
  d.name == e.name && d.condition.how == e.condition.how &&
  Condition.sameMembers d.condition.members e.condition.members &&
  d.actions.length == e.actions.length && (d.actions.zip e.actions).all fun p => p.1.same p.2

/-! ## Normal form -/

mutual

/-- The condition with its literals in normal form. -/
def Condition.normal : Condition → Condition
  | .test t => .test { t with value := t.value.map Value.normal }
  | .group how members => .group how (Condition.normalMembers members)

/-- The members of a group with their literals in normal form. -/
def Condition.normalMembers : List Condition → List Condition
  | [] => []
  | c :: cs => c.normal :: Condition.normalMembers cs

end

/-- The action with its parameters in normal form. -/
def ActionSpec.normal : ActionSpec → ActionSpec
  | redistribute params => redistribute (Fields.ofList (Value.normalFields params))
  | a => a

/-- The rule with the literals and parameters in it in normal form. -/
def RuleDefinition.normal (d : RuleDefinition) : RuleDefinition where
  name := d.name
  condition := ⟨d.condition.how, Condition.normalMembers d.condition.members⟩
  actions := d.actions.map ActionSpec.normal

end Rulebook
