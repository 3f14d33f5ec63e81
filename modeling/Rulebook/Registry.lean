import Rulebook.Outcome

/-!
# `Rulebook.Registry` — rules by name

A registry keeps its rules in the order of their registration. A name is taken once, and the name of the
fallback never. A rule that is refused leaves no trace.

## Contents
* `Registry.register`, `Registry.registerAll` — rules enter
* `Registry.contains`, `Registry.find?`, `Registry.names` — rules by name
* `Registry.evaluate`, `Registry.dispatch` — all rules on a fact
* `Registry.statistics` — counts
-/

namespace Rulebook

/-- Rules in the order of their registration, and the names that are taken. -/
structure Registry where
  rules : List CompiledRule
  taken : List String

namespace Registry

/-- The registry without rules. -/
def empty : Registry := ⟨[], []⟩

/-! ## Registration -/

/-- Whether a rule has a name. -/
def contains (g : Registry) (name : String) : Bool := g.taken.contains name

/-- The registry after an attempt to add a rule, and why the rule is refused if it is. The name is looked at
    first. -/
def register (g : Registry) (d : RuleDefinition) : Registry × Option RuleError :=
  if d.name = fallbackName ∨ g.contains d.name then (g, some (.duplicateName d.name))
  else match d.compile with
    | .error e => (g, some e)
    | .ok r => (⟨g.rules ++ [r], r.name :: g.taken⟩, none)

/-- Rules registered one by one: the registry, and the names of the rules that were refused with the
    reasons. -/
def registerAll : Registry → List RuleDefinition → Registry × List (String × RuleError)
  | g, [] => (g, [])
  | g, d :: rest =>
    let (g, error) := g.register d
    let (g, errors) := registerAll g rest
    (g, (error.map fun e => (d.name, e)).toList ++ errors)

/-! ## Look-up -/

/-- The names of the rules in the order of their registration. -/
def names (g : Registry) : List String := g.rules.map CompiledRule.name

/-- The rule with a name. -/
def find? (g : Registry) (name : String) : Option CompiledRule := g.rules.find? fun r => r.name = name

/-! ## Facts -/

/-- The outcomes of all rules on a fact, before any action. -/
def evaluate (g : Registry) (fact : Fact) : List Outcome := g.rules.map fun r => r.evaluate fact

/-- The outcomes of rules on a fact with their actions, one rule after the other, followed by `last`. -/
def dispatchAll (timeout : Nat) (fact : Fact) (last : List Outcome) :
    List CompiledRule → Task (Except Crash (List Outcome))
  | [] => .done (.ok last)
  | r :: rest =>
    (r.act timeout fact).bind fun
      | .error c => .done (.error c)
      | .ok o => (dispatchAll timeout fact last rest).map fun x => x.map (o :: ·)

/-- The outcomes of all rules on a fact with their actions, and that of the fallback. -/
def dispatch (timeout : Nat) (g : Registry) (fact : Fact) : Task (Except Crash (List Outcome)) :=
  dispatchAll timeout fact (fallback? fact).toList g.rules

/-! ## Counts -/

/-- Counts over a registry. -/
structure Statistics where
  rules : Nat
  fields : Nat
  distinctFields : Nat
  actions : Nat

/-- The fields that a rule reads on average; zero without rules. -/
def Statistics.fieldsPerRule (s : Statistics) : Binary64 :=
  if s.rules = 0 then .ofInt 0 else Binary64.div (.ofInt s.fields) (.ofInt s.rules)

/-- The counts over a registry: its rules, the fields of each of them, those fields without repetition, and
    the actions. -/
def statistics (g : Registry) : Statistics where
  rules := g.rules.length
  fields := (g.rules.flatMap CompiledRule.requiredFields).length
  distinctFields := (distinctNames (g.rules.flatMap CompiledRule.requiredFields)).length
  actions := (g.rules.flatMap CompiledRule.actions).length

end Registry

end Rulebook
