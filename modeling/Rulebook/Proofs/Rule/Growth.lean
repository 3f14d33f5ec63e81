import Rulebook.Proofs.Rule.Meaning

/-!
# `Rulebook.Proofs.Rule.Growth` — rules on records with more fields

A value that is absent satisfies `!=` and nothing else. So a condition in which no test asks for values that differ
holds because of what is there, and it cannot be undone by what is added: where a record has all fields of another one,
with the same values, every path that leads somewhere in the smaller record leads to the same value in the larger one.
Only a path that leads nowhere may lead somewhere later, and no test that held looked at it.

* `Fact.Within` — a record with more fields
* `Fact.Within.lookup` — what is found in a record is found in a larger one
* `Condition.Positive` — a condition without `!=`
* `RuleDefinition.applies_within` — a rule without `!=` goes on to apply when fields are added
-/

namespace Rulebook

variable {f g : Fact}

/-! ## More fields -/

/-- **Every field of `f` is a field of `g` with the same value.** The two may differ in all fields that `f` does not
    have, and in their places and identities. -/
def Fact.Within (f g : Fact) : Prop :=
  ∀ name v, Fields.get? name f.fields = some v → Fields.get? name g.fields = some v

/-- What a text leads to in a record, it leads to in a larger one: the first step takes a field that both have, and
    below it there is the same value. -/
theorem Fact.Within.lookup (within : f.Within g) {text : String} {v : Value} (found : f.lookup text = some v) :
    g.lookup text = some v := by
  unfold Fact.lookup at found ⊢
  cases steps : (Text.splitText '.' text).map Text.trim with
  | nil =>
      -- A text has at least one piece.
      cases steps
  | cons first rest =>
      rw [steps, List.foldlM_cons] at found
      obtain ⟨u, field, below⟩ := Option.bind_eq_some_iff.mp found
      have kept : Path.child? g.value first = some u := within first u field
      rw [List.foldlM_cons]
      exact Option.bind_eq_some_iff.mpr ⟨u, kept, below⟩

/-- What a test compares with stays the same: a value that is written does not depend on the record. -/
theorem Fact.Within.compared? (within : f.Within g) {t : FieldTest} {v : Value} (found : t.compared? f = some v) :
    t.compared? g = some v := by
  obtain ⟨field, operator, value, valueField⟩ := t
  cases value with
  | some w => exact found
  | none =>
      cases valueField with
      | none => cases found
      | some text => exact within.lookup found

/-! ## Conditions without `!=` -/

/-- **No test of a condition has the operator `!=`**, at any depth. -/
inductive Condition.Positive : Condition → Prop where
  | test {t : FieldTest} : Text.trim t.operator ≠ "!=" → Positive (.test t)
  | group {how : Combinator} {members : List Condition} : (∀ c ∈ members, Positive c) → Positive (.group how members)

/-- A test with another operator holds only where both of its values are present. -/
theorem FieldTest.Holds.present {t : FieldTest} (h : t.Holds f) (other : Text.trim t.operator ≠ "!=") :
    ∃ (v w : Value) (op : Operator), f.lookup t.field = some v ∧ t.compared? f = some w ∧ op.symbol = Text.trim t.operator ∧
      op.holdsOn v w = true := by
  unfold FieldTest.Holds at h
  cases left : f.lookup t.field with
  | none =>
      rw [left] at h
      exact absurd h other
  | some v =>
      cases right : t.compared? f with
      | none =>
          rw [left, right] at h
          exact absurd h other
      | some w =>
          rw [left, right] at h
          obtain ⟨op, symbol, holds⟩ := h
          exact ⟨v, w, op, rfl, rfl, symbol, holds⟩

/-- A test with another operator goes on to hold. -/
theorem FieldTest.Holds.within {t : FieldTest} (h : t.Holds f) (other : Text.trim t.operator ≠ "!=")
    (within : f.Within g) : t.Holds g := by
  obtain ⟨v, w, op, left, right, symbol, holds⟩ := h.present other
  rw [FieldTest.Holds, within.lookup left, within.compared? right]
  exact ⟨op, symbol, holds⟩

/-- **A condition without `!=` goes on to hold when fields are added.** -/
theorem Condition.Holds.within {c : Condition} (h : c.Holds f) (positive : c.Positive) (within : f.Within g) :
    c.Holds g := by
  induction c with
  | test t =>
      cases positive with
      | test other => exact .test ((Condition.holds_test_iff.mp h).within other within)
  | group how members ih =>
      cases positive with
      | group positive =>
          cases how with
          | all =>
              have each := Condition.holds_all_iff.mp h
              exact .all fun c hc => ih c hc (each c hc) (positive c hc)
          | any =>
              obtain ⟨c, hc, holds⟩ := Condition.holds_any_iff.mp h
              exact .any hc (ih c hc holds (positive c hc))

/-! ## Rules -/

/-- **A rule without `!=` goes on to apply when fields are added.** Absence alone never makes such a rule apply: if it
    applies to a record, then it applies to every record that has the fields of that one with the same values. -/
theorem RuleDefinition.applies_within {d : RuleDefinition} {r : CompiledRule} (compiled : d.compile = .ok r)
    (positive : d.condition.toCondition.Positive) (within : f.Within g) (applies : r.applies f = true) :
    r.applies g = true := by
  obtain ⟨-, -, condition, -⟩ := RuleDefinition.compile_eq_ok_iff.mp compiled
  have before : d.condition.toCondition.Holds f := condition.holds_iff.mp applies
  exact condition.holds_iff.mpr (before.within positive within)

/-- A rule on a group inside of another one, with a test against a field, and a record to which a field is added that
    the rule looks at. -/
theorem RuleDefinition.applies_within_added :
    let one : Value := .number (.int 1 (by decide))
    let two : Value := .number (.int 2 (by decide))
    let below : Condition := .test (.reference "a. b" " < " "x")
    let d : RuleDefinition :=
      ⟨"r", ⟨.any, [.group .all [below, .test (.literal "x" "==" two)], .test (.literal "z" ">=" one)]⟩, []⟩
    let f : Fact := ⟨0, none, [("a", .object [("b", one)]), ("x", two)]⟩
    let g : Fact := ⟨3, some "7", [("a", .object [("b", one)]), ("id", .string "7"), ("x", two), ("z", .null)]⟩
    ∃ r, d.compile = .ok r ∧ d.condition.toCondition.Positive ∧ f.Within g ∧ r.applies f = true ∧
      r.applies g = true := by
  intro one two below d f g
  have compiles : ∃ r, d.compile = .ok r ∧ r.applies f = true := by
    subst one two below d f
    exact ⟨_, rfl, rfl⟩
  obtain ⟨r, compiled, applies⟩ := compiles
  have positive : d.condition.toCondition.Positive := by
    refine .group (List.forall_mem_cons.mpr ⟨.group ?_, List.forall_mem_singleton.mpr (.test ?_)⟩)
    · exact List.forall_mem_cons.mpr ⟨.test (by decide), List.forall_mem_singleton.mpr (.test (by decide))⟩
    · decide
  have within : f.Within g := by
    intro name v found
    by_cases first : name = "a"
    · subst first
      exact found
    · by_cases second : name = "x"
      · subst second
        exact found
      · simp [f, Fields.get?, first, second] at found
  exact ⟨r, compiled, positive, within, applies, RuleDefinition.applies_within compiled positive within applies⟩

end Rulebook
