import Rulebook.Rule.Definition
import Rulebook.Value.Reader

/-!
# `Rulebook.Rule.Encoding` — rules as JSON values

Encoding writes every part of a rule under its name and leaves out what is absent. Decoding takes that form
and a few others: parts that have a default may be missing, parts that are not known are ignored, and a list
of the parts in their order does in place of an object. A part that is there twice is refused.

## Contents
* `RuleDefinition.encode` — the value of a rule
* `parts?` — the parts of a value by name or by position
* `RuleDefinition.decode?` — the rule that a value stands for
* `RuleDefinition.read?` — the rule of a JSON text
-/

namespace Rulebook

/-! ## Encoding -/

/-- The value of a test. -/
def FieldTest.encode (t : FieldTest) : Value :=
  .object <|
    [("field", .string t.field), ("operator", .string t.operator)] ++
    (t.value.map fun v => ("value", v)).toList ++
    (t.valueField.map fun s => ("value_field", .string s)).toList

mutual

/-- The value of a condition. -/
def Condition.encode : Condition → Value
  | .test t => t.encode
  | .group how members => .object [(how.key, .array (Condition.encodeMembers members))]

/-- The values of the members of a group. -/
def Condition.encodeMembers : List Condition → List Value
  | [] => []
  | c :: cs => c.encode :: Condition.encodeMembers cs

end

/-- The value of an action. Its kind stands under `type`. -/
def ActionSpec.encode (a : ActionSpec) : Value :=
  let type : String × Value := ("type", .string a.kind.name)
  .object <| match a with
    | update target expression =>
      [("expression", .string expression), ("target_field", .string target), type]
    | redistribute params => [("params", .object params), type]
    | alert message => [("message", .string message), type]
    | notify recipient template =>
      (recipient.map fun r => ("recipient", .string r)).toList ++ [("template", .string template), type]

/-- The value of a rule. -/
def RuleDefinition.encode (d : RuleDefinition) : Value :=
  .object
    [("actions", .array (d.actions.map ActionSpec.encode)),
     ("condition", (Condition.group d.condition.how d.condition.members).encode),
     ("name", .string d.name)]

/-! ## Parts -/

/-- The value of a field, if there is one; refused where the field is repeated. -/
def Fields.part? (key : String) (fields : Fields) : Option (Option Value) :=
  match fields.filter fun f => f.1 = key with
  | [] => some none
  | [f] => some (some f.2)
  | _ => none

/-- The named parts of a value: the fields of an object, or the items of a list that has no more of them.
    Parts that are missing are none. -/
def parts? (names : List String) : Value → Option (List (Option Value))
  | .object fields => names.mapM fun n => Fields.part? n fields
  | .array items =>
    if items.length ≤ names.length then some (names.mapIdx fun i _ => items[i]?) else none
  | _ => none

/-- A text that must be there. -/
def requiredText? : Option Value → Option String
  | some (.string s) => some s
  | _ => none

/-- A text that may be missing or null. -/
def optionalText? : Option Value → Option (Option String)
  | none | some .null => some none
  | some (.string s) => some (some s)
  | _ => none

/-! ## Decoding -/

/-- The combinator of a key. -/
def Combinator.ofKey? (key : String) : Option Combinator :=
  [all, any].find? fun how => how.key = key

/-- The test that a value stands for. A literal null is a literal. -/
def FieldTest.decode? (v : Value) : Option FieldTest :=
  match parts? ["field", "operator", "value", "value_field"] v with
  | some [field, operator, value, valueField] => do
    return ⟨← requiredText? field, ← requiredText? operator, value, ← optionalText? valueField⟩
  | _ => none

mutual

/-- The group that a value stands for: an object with the key of a combinator and nothing else. -/
def Condition.decodeGroup? : Value → Option Group
  | .object [(key, .array items)] =>
    match Combinator.ofKey? key, Condition.decodeMembers? items with
    | some how, some members => some ⟨how, members⟩
    | _, _ => none
  | _ => none

/-- The conditions that values stand for: each a group, or else a test. -/
def Condition.decodeMembers? : List Value → Option (List Condition)
  | [] => some []
  | v :: vs =>
    let first := match Condition.decodeGroup? v with
      | some g => some (Condition.group g.how g.members)
      | none => (FieldTest.decode? v).map .test
    match first, Condition.decodeMembers? vs with
    | some c, some cs => some (c :: cs)
    | _, _ => none

end

/-- The action of a kind with the parts that `get?` finds for the names of its parts. -/
def ActionSpec.ofParts? (kind : String) (get? : List String → Option (List (Option Value))) :
    Option ActionSpec :=
  if kind = ActionKind.update.name then
    match get? ["target_field", "expression"] with
    | some [target, expression] => do return update (← requiredText? target) (← requiredText? expression)
    | _ => none
  else if kind = ActionKind.redistribute.name then
    match get? ["params"] with
    | some [none] => some (redistribute [])
    | some [some (.object params)] => some (redistribute params)
    | _ => none
  else if kind = ActionKind.alert.name then
    match get? ["message"] with
    | some [message] => (requiredText? message).map alert
    | _ => none
  else if kind = ActionKind.notify.name then
    match get? ["recipient", "template"] with
    | some [recipient, none] => (optionalText? recipient).map fun r => notify r ""
    | some [recipient, some (.string t)] => (optionalText? recipient).map fun r => notify r t
    | _ => none
  else none

/-- The action that a value stands for: an object with its kind under `type`, or a list that starts with
    its kind. -/
def ActionSpec.decode? : Value → Option ActionSpec
  | .object fields =>
    match Fields.part? "type" fields with
    | some (some (.string kind)) => ofParts? kind fun names => parts? names (.object fields)
    | _ => none
  | .array (.string kind :: items) => ofParts? kind fun names => parts? names (.array items)
  | _ => none

/-- The rule that a value stands for. -/
def RuleDefinition.decode? (v : Value) : Option RuleDefinition :=
  match parts? ["name", "condition", "actions"] v with
  | some [name, some condition, actions] => do
    let actions ← match actions with
      | none => some []
      | some (.array items) => items.mapM ActionSpec.decode?
      | some _ => none
    return ⟨← requiredText? name, ← Condition.decodeGroup? condition, actions⟩
  | _ => none

/-- The rule of a JSON text. Fields that a rule does not have are only scanned. -/
def RuleDefinition.read? (text : String) : Option RuleDefinition := do
  let known := fun key => key == "name" || key == "condition" || key == "actions"
  let v ← Value.readScanning ⟨Value.fileDepth, fun key => !known key⟩ text
  return (← decode? v).normal

end Rulebook
