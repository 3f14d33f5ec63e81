import Rulebook.Proofs.Rule.WellFormed
import Rulebook.Rule.Encoding

/-!
# `Rulebook.Proofs.Rule.Decoding` — decoding undoes encoding

Encoding leaves out what is absent, and decoding takes what is left out for absent, so every part of a rule comes back
as it was: a literal null is there and stays a literal, a missing literal stays missing. Two of the formats are read
without being told what they hold. A member of a group is tried as a group first, and an encoded test is never taken
for one, because its object has two fields at least; an action is read by the kind that stands in it.

* `FieldTest.parts?_encode`, `FieldTest.decodeGroup?_encode` — the parts of a test are found, and it is no group
* `Condition.decode?_encode` — conditions, by induction on how they are nested
* `ActionSpec.decode?_encode` — actions, by their kinds
* `RuleDefinition.decoding_undoes_encoding` — rules
-/

namespace Rulebook

/-! ## Texts -/

theorem requiredText?_string (s : String) : requiredText? (some (.string s)) = some s := rfl

/-- A text that is left out where it is absent comes back, absent or not. -/
theorem optionalText?_map_string (s : Option String) : optionalText? (s.map .string) = some s := by
  cases s with
  | none => rfl
  | some s => rfl

/-! ## Tests -/

/-- **The parts of an encoded test** stand under their names, and those that are absent are not there. -/
theorem FieldTest.parts?_encode (t : FieldTest) :
    parts? ["field", "operator", "value", "value_field"] t.encode =
      some [some (.string t.field), some (.string t.operator), t.value, t.valueField.map .string] := by
  obtain ⟨field, operator, value, valueField⟩ := t
  cases value with
  | none =>
      cases valueField with
      | none => rfl
      | some reference => rfl
  | some literal =>
      cases valueField with
      | none => rfl
      | some reference => rfl

theorem FieldTest.decode?_encode (t : FieldTest) : FieldTest.decode? t.encode = some t := by
  have parts := t.parts?_encode
  simp only [FieldTest.decode?, parts, requiredText?_string, optionalText?_map_string]
  rfl

/-- An encoded test is not taken for a group, which has one field and no more. -/
theorem FieldTest.decodeGroup?_encode (t : FieldTest) : Condition.decodeGroup? t.encode = none := by
  obtain ⟨field, operator, value, valueField⟩ := t
  cases value with
  | none => cases valueField <;> rfl
  | some literal => cases valueField <;> rfl

/-! ## Conditions -/

/-- The condition that a value stands for: a group, or else a test. -/
def Condition.decode? (v : Value) : Option Condition :=
  match Condition.decodeGroup? v with
  | some g => some g.toCondition
  | none => (FieldTest.decode? v).map .test

/-- The members of a group are decoded one by one. -/
theorem Condition.decodeMembers?_cons (v : Value) (vs : List Value) :
    Condition.decodeMembers? (v :: vs) =
      (Condition.decode? v).bind fun c => (Condition.decodeMembers? vs).map (c :: ·) := by
  rw [Condition.decodeMembers?, Condition.decode?]
  cases Condition.decodeGroup? v with
  | some g => cases Condition.decodeMembers? vs <;> rfl
  | none => cases FieldTest.decode? v <;> cases Condition.decodeMembers? vs <;> rfl

theorem Condition.decodeMembers?_encodeMembers {cs : List Condition}
    (each : ∀ c ∈ cs, Condition.decode? c.encode = some c) :
    Condition.decodeMembers? (Condition.encodeMembers cs) = some cs := by
  induction cs with
  | nil => rfl
  | cons c cs ih =>
      have first : Condition.decode? c.encode = some c := each c List.mem_cons_self
      have others := ih fun c' hc' => each c' (List.mem_cons_of_mem c hc')
      rw [Condition.encodeMembers, Condition.decodeMembers?_cons, first, others]
      rfl

theorem Combinator.ofKey?_key (how : Combinator) : Combinator.ofKey? how.key = some how := by
  cases how with
  | all => rfl
  | any => rfl

/-- A group comes back where its members do. -/
theorem Condition.decodeGroup?_encode {how : Combinator} {members : List Condition}
    (inside : Condition.decodeMembers? (Condition.encodeMembers members) = some members) :
    Condition.decodeGroup? (Condition.group how members).encode = some ⟨how, members⟩ := by
  rw [Condition.encode, Condition.decodeGroup?, Combinator.ofKey?_key, inside]

/-- **Every condition comes back**, however deep its groups are nested. -/
theorem Condition.decode?_encode (c : Condition) : Condition.decode? c.encode = some c := by
  induction c with
  | test t =>
      have noGroup : Condition.decodeGroup? t.encode = none := t.decodeGroup?_encode
      rw [Condition.encode, Condition.decode?, noGroup, t.decode?_encode]
      rfl
  | group how members ih =>
      have inside := Condition.decodeMembers?_encodeMembers ih
      rw [Condition.decode?, Condition.decodeGroup?_encode inside]
      rfl

/-! ## Actions -/

/-- Every kind of action comes back with its parts. -/
theorem ActionSpec.decode?_encode (a : ActionSpec) : ActionSpec.decode? a.encode = some a := by
  cases a with
  | update target expression => rfl
  | redistribute params => rfl
  | alert message => rfl
  | notify recipient template =>
      cases recipient with
      | none => rfl
      | some r => rfl

theorem ActionSpec.mapM_decode?_encode (as : List ActionSpec) :
    (as.map ActionSpec.encode).mapM ActionSpec.decode? = some as := by
  induction as with
  | nil => rfl
  | cons a as ih => rw [List.map_cons, List.mapM_cons, a.decode?_encode, ih]; rfl

/-! ## Rules -/

/-- **Decoding undoes encoding.** The value of a rule stands for that rule and no other, whatever is in it. -/
theorem RuleDefinition.decoding_undoes_encoding (d : RuleDefinition) : RuleDefinition.decode? d.encode = some d := by
  have parts : parts? ["name", "condition", "actions"] d.encode =
      some [some (.string d.name), some d.condition.toCondition.encode,
        some (.array (d.actions.map ActionSpec.encode))] := rfl
  have members := Condition.decodeMembers?_encodeMembers fun c (_ : c ∈ d.condition.members) => c.decode?_encode
  have condition : Condition.decodeGroup? d.condition.toCondition.encode = some d.condition :=
    Condition.decodeGroup?_encode members
  have actions := ActionSpec.mapM_decode?_encode d.actions
  simp only [RuleDefinition.decode?, parts, actions, requiredText?_string, condition]
  rfl

end Rulebook
