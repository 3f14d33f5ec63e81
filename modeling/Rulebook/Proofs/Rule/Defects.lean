import Rulebook.Rule.Compiled

/-!
# `Rulebook.Proofs.Rule.Defects` — what a rule is refused for

Checking a rule ends with the first thing that is wrong. `FailsWith` says of a check which errors it can end
with; a check that is made of parts fails with what its parts fail with (`FailsWith.bind`).

* `RuleDefinition.failsWith_compile` — a rule is refused for an operator that is not known or for a defect, never
  for its name being taken;
* `RuleError.message_ne_duplicate` — so the text of the reason is not that of a name that is taken.
-/

namespace Rulebook

/-! ## Checks and their errors -/

/-- A check ends with no other errors than those that have a property. -/
def FailsWith {α : Type} (P : RuleError → Prop) (check : Except RuleError α) : Prop :=
  ∀ e, check = .error e → P e

namespace FailsWith

variable {α β : Type} {P : RuleError → Prop}

theorem ok (a : α) : FailsWith P (.ok a) := nofun

theorem error {e : RuleError} (h : P e) : FailsWith P (.error e : Except RuleError α) := by
  rintro _ ⟨⟩
  exact h

/-- A check that goes on after another one fails with what either fails with. -/
theorem bind {x : Except RuleError α} {f : α → Except RuleError β} (hx : FailsWith P x)
    (hf : ∀ a, FailsWith P (f a)) : FailsWith P (x >>= f) := by
  cases x with
  | error e => exact error (hx e rfl)
  | ok a => exact hf a

end FailsWith

/-! ## Rules -/

/-- A reason that lies in the rule itself, and not in the other rules. -/
def RuleError.IsOwn : RuleError → Prop
  | unsupportedOperator _ _ | defective _ _ => True
  | duplicateName _ => False

theorem failsWith_pathAt (rule : String) (place : Place) (text : String) :
    FailsWith RuleError.IsOwn (pathAt rule place text) := by
  unfold pathAt
  cases Path.parse text with
  | error e => exact .error trivial
  | ok p => exact .ok p

theorem FieldTest.failsWith_compile (rule : String) (place : Place) (t : FieldTest) :
    FailsWith RuleError.IsOwn (t.compile rule place) := by
  unfold FieldTest.compile
  cases Operator.parse t.operator with
  | none => exact .error trivial
  | some op =>
      refine .bind (failsWith_pathAt rule place t.field) fun field => ?_
      cases t.value with
      | none =>
          cases t.valueField with
          | none => exact .error trivial
          | some text => exact .bind (failsWith_pathAt rule place text) fun p => .ok _
      | some v =>
          cases t.valueField with
          | none => exact .ok _
          | some text => exact .error trivial

mutual

theorem Condition.failsWith_compile (rule : String) (route : List Nat) :
    (c : Condition) → FailsWith RuleError.IsOwn (c.compile rule route)
  | .test t => t.failsWith_compile rule (.condition route)
  | .group _ [] => .error trivial
  | .group _ (c :: cs) => .bind (Condition.failsWith_compileMembers rule route 0 (c :: cs)) fun _ => .ok _

theorem Condition.failsWith_compileMembers (rule : String) (route : List Nat) (i : Nat) :
    (cs : List Condition) → FailsWith RuleError.IsOwn (Condition.compileMembers rule route i cs)
  | [] => .ok []
  | c :: cs =>
      .bind (Condition.failsWith_compile rule (route ++ [i]) c) fun _ =>
      .bind (Condition.failsWith_compileMembers rule route (i + 1) cs) fun _ => .ok _

end

theorem failsWith_compileActions (rule : String) (i : Nat) (specs : List ActionSpec) :
    FailsWith RuleError.IsOwn (compileActions rule i specs) := by
  induction specs generalizing i with
  | nil => exact .ok []
  | cons a rest ih =>
      refine .bind ?_ fun action => .bind (ih (i + 1)) fun actions => .ok _
      cases a with
      | update target expression => exact .bind (failsWith_pathAt rule (.action i) target) fun p => .ok _
      | redistribute params => exact .ok _
      | alert message => exact .ok _
      | notify recipient template => exact .ok _

/-- **A rule is refused for what it is**: compiling it never ends with a name that is taken. -/
theorem RuleDefinition.failsWith_compile (d : RuleDefinition) : FailsWith RuleError.IsOwn d.compile := by
  unfold RuleDefinition.compile
  dsimp only
  split
  · exact .error trivial
  · refine .bind (Condition.failsWith_compile d.name [] _) fun condition => ?_
    exact .bind (failsWith_compileActions d.name 0 d.actions) fun actions => .ok _

/-! ## Texts -/

/-- Texts that start differently differ, whatever follows. -/
theorem append_ne_append {s t : String} (n : Nat) (hs : n ≤ s.toList.length) (ht : n ≤ t.toList.length)
    (h : s.toList.take n ≠ t.toList.take n) (u v : String) : s ++ u ≠ t ++ v := by
  intro same
  have start := congrArg (fun x => x.toList.take n) same
  simp only [String.toList_append, List.take_append_of_le_length hs, List.take_append_of_le_length ht] at start
  exact h start

/-- The text of a reason that lies in the rule is not that of a name that is taken. -/
theorem RuleError.message_ne_duplicate {e : RuleError} (own : e.IsOwn) (name : String) :
    e.message ≠ (duplicateName name).message := by
  cases e with
  | unsupportedOperator rule operator =>
      -- The first four characters tell the texts apart.
      unfold message
      dsimp only [toString]
      rw [String.append_assoc, String.append_assoc, String.append_assoc]
      exact append_ne_append 4 (by decide) (by decide) (by decide) _ _
  | defective rule defect =>
      unfold message
      dsimp only [toString]
      rw [String.append_assoc, String.append_assoc]
      exact append_ne_append 4 (by decide) (by decide) (by decide) _ _
  | duplicateName n => exact own.elim

end Rulebook
