import Mathlib.Tactic.Tauto
import Rulebook.Proofs.Registry
import Rulebook.Proofs.Rule.Defects
import Rulebook.Report

/-!
# `Rulebook.Proofs.Validation` — validation next to registration

Both look at the rules of a batch in their order, and both refuse a rule whose name is used. They differ in what
uses a name: for validation every rule that was looked at, for registration every rule that was registered. So
the answers can differ on a name that only rules had that do not compile, and there they always do.

* `getElem?_validateAll`, `Registry.getElem?_attempts_empty` — the two answers for the rule at a position;
* `UsedUp` — a name that the earlier rules have, none of which compiles;
* `validation_agrees_iff` — the answers agree exactly where the name is not used up.
-/

namespace Rulebook

/-! ## The two answers -/

/-- Why a rule is refused, if it is, where its name is used or not. -/
def RuleDefinition.refusal? (d : RuleDefinition) (used : Prop) [Decidable used] : Option RuleError :=
  if used then some (.duplicateName d.name)
  else match d.compile with
    | .ok _ => none
    | .error e => some e

theorem RuleDefinition.refusal?_used {d : RuleDefinition} {used : Prop} [Decidable used] (h : used) :
    d.refusal? used = some (.duplicateName d.name) := if_pos h

theorem RuleDefinition.refusal?_congr {d : RuleDefinition} {p q : Prop} [Decidable p] [Decidable q] (h : p ↔ q) :
    d.refusal? p = d.refusal? q := by
  simp only [refusal?, h]

/-- A rule whose name is not used is never refused with the text of a name that is. -/
theorem RuleDefinition.refusal?_free {d : RuleDefinition} {used : Prop} [Decidable used] (h : ¬ used)
    (name : String) :
    (d.refusal? used).map RuleError.message ≠ some (RuleError.duplicateName name).message := by
  rw [refusal?, if_neg h]
  cases compiled : d.compile with
  | ok r => simp
  | error e =>
      have own : e.IsOwn := d.failsWith_compile e compiled
      simpa using e.message_ne_duplicate own name

/-- The answer of validation for the rule at a position: its name is used by the rules before it. -/
theorem getElem?_validateAll (seen : List String) (ds : List RuleDefinition) (i : Nat) :
    (validateAll seen ds)[i]? = ds[i]?.map fun d =>
      ⟨d.name, (d.refusal? (d.name = fallbackName ∨ d.name ∈ seen ∨
        d.name ∈ (ds.take i).map RuleDefinition.name)).map .refused⟩ := by
  induction ds generalizing seen i with
  | nil => simp [validateAll]
  | cons d ds ih =>
      by_cases used : d.name = fallbackName ∨ d.name ∈ seen
      · rw [validateAll, if_pos used]
        cases i with
        | zero => simp [RuleDefinition.refusal?, used]
        | succ i =>
            rw [List.getElem?_cons_succ, ih, List.getElem?_cons_succ]
            congr 1
            funext e
            congr 2
            refine RuleDefinition.refusal?_congr ?_
            -- The rule is passed over, but its name was used before.
            have known : e.name = d.name → e.name = fallbackName ∨ e.name ∈ seen := fun same => same ▸ used
            simp only [List.take_succ_cons, List.map_cons, List.mem_cons]
            tauto
      · rw [validateAll, if_neg used]
        cases i with
        | zero =>
            simp only [List.getElem?_cons_zero, List.take_zero, List.map_nil, List.not_mem_nil, or_false,
              Option.map_some, RuleDefinition.refusal?, if_neg used]
            cases d.compile <;> rfl
        | succ i =>
            rw [List.getElem?_cons_succ, ih, List.getElem?_cons_succ]
            congr 1
            funext e
            congr 2
            refine RuleDefinition.refusal?_congr ?_
            simp only [List.take_succ_cons, List.map_cons, List.mem_cons]
            tauto

theorem Registry.register_refusal (g : Registry) (d : RuleDefinition) :
    (g.register d).2 = d.refusal? (d.name = fallbackName ∨ d.name ∈ g.taken) := by
  rcases g.register_cases d with ⟨refused, eq⟩ | ⟨free, e, compiled, eq⟩ | ⟨free, r, compiled, _, eq⟩
  · unfold Refuses at refused
    rw [eq, RuleDefinition.refusal?_used refused]
  · unfold Refuses at free
    rw [eq, RuleDefinition.refusal?, if_neg free, compiled]
  · unfold Refuses at free
    rw [eq, RuleDefinition.refusal?, if_neg free, compiled]

/-- The answer of registration for the rule at a position: its name is used by the rules before it that
    compile. -/
theorem Registry.getElem?_attempts_empty (ds : List RuleDefinition) (i : Nat) :
    (empty.attempts ds)[i]? = ds[i]?.map fun d =>
      d.refusal? (d.name = fallbackName ∨ ∃ e ∈ ds.take i, e.name = d.name ∧ e.compiles) := by
  rw [getElem?_attempts]
  congr 1
  funext d
  rw [register_refusal]
  refine RuleDefinition.refusal?_congr ?_
  rw [mem_taken_registerAll]
  have fresh : d.name ∉ empty.taken := List.not_mem_nil
  tauto

/-! ## Agreement -/

/-- The answer of validation for a rule agrees with that of registration: the rule is valid when it is
    registered, and otherwise the text is that of the reason. -/
def Validation.Agrees (v : Validation) (refusal : Option RuleError) : Prop :=
  (v.finding = none ↔ refusal = none) ∧
  ∀ e, refusal = some e → v.finding.map Finding.message = some e.message

theorem Validation.agrees_iff {v : Validation} {refusal : Option RuleError} :
    v.Agrees refusal ↔ v.finding.map Finding.message = refusal.map RuleError.message := by
  unfold Agrees
  cases v.finding <;> cases refusal <;> simp

/-- A name that rules have, but none that compiles. -/
def UsedUp (before : List RuleDefinition) (name : String) : Prop :=
  name ≠ fallbackName ∧ (∃ e ∈ before, e.name = name) ∧ ∀ e ∈ before, e.name = name → e.compiles = false

/-- With the names of the rules before a rule used, or only those of the rules that compile, the text of the
    answer is the same exactly where the name is not used up. -/
theorem refusal_agrees_iff (before : List RuleDefinition) (d : RuleDefinition) :
    (d.refusal? (d.name = fallbackName ∨ d.name ∈ [] ∨ d.name ∈ before.map RuleDefinition.name)).map
        RuleError.message =
      (d.refusal? (d.name = fallbackName ∨ ∃ e ∈ before, e.name = d.name ∧ e.compiles)).map RuleError.message ↔
    ¬ UsedUp before d.name := by
  by_cases compiles : ∃ e ∈ before, e.name = d.name ∧ e.compiles
  · -- Some rule of that name is registered: both answers say that the name is taken.
    obtain ⟨e, mem, named, ok⟩ := compiles
    have seen : d.name ∈ before.map RuleDefinition.name := named ▸ List.mem_map_of_mem mem
    have free : ¬ UsedUp before d.name := fun h => by simp [h.2.2 e mem named] at ok
    rw [RuleDefinition.refusal?_used (.inr (.inr seen)), RuleDefinition.refusal?_used (.inr ⟨e, mem, named, ok⟩)]
    simp [free]
  have fail : ∀ e ∈ before, e.name = d.name → e.compiles = false := fun e mem named =>
    Bool.eq_false_iff.mpr fun ok => compiles ⟨e, mem, named, ok⟩
  by_cases reserved : d.name = fallbackName
  · have free : ¬ UsedUp before d.name := fun h => h.1 reserved
    rw [RuleDefinition.refusal?_used (.inl reserved), RuleDefinition.refusal?_used (.inl reserved)]
    simp [free]
  by_cases seen : d.name ∈ before.map RuleDefinition.name
  · -- Only rules that do not compile have the name: registration does not know it.
    obtain ⟨e, mem, named⟩ := List.mem_map.mp seen
    have usedUp : UsedUp before d.name := ⟨reserved, ⟨e, mem, named⟩, fail⟩
    have other := d.refusal?_free (not_or.mpr ⟨reserved, compiles⟩) d.name
    rw [RuleDefinition.refusal?_used (.inr (.inr seen)), Option.map_some, eq_comm]
    exact iff_of_false other (not_not.mpr usedUp)
  · have free : ¬ UsedUp before d.name := fun ⟨_, ⟨e, mem, named⟩, _⟩ =>
      seen (named ▸ List.mem_map_of_mem mem)
    have fresh : ¬(d.name ∈ [] ∨ d.name ∈ before.map RuleDefinition.name) :=
      not_or.mpr ⟨List.not_mem_nil, seen⟩
    rw [RuleDefinition.refusal?_congr
      (iff_of_false (not_or.mpr ⟨reserved, fresh⟩) (not_or.mpr ⟨reserved, compiles⟩))]
    simp [free]

/-- **Where validation agrees with registration.** Every rule of a batch has an entry among the answers of
    validation, after those of the entries that are no rules, and an attempt to register it. The two agree if and
    only if the name of the rule is not used up by the rules before it. -/
theorem validation_agrees_iff (batch : RuleBatch) {i : Nat} {d : RuleDefinition}
    (found : batch.definitions[i]? = some d) :
    ∃ v refusal, (validate batch)[batch.rejected.length + i]? = some v ∧ v.name = d.name ∧
      (Registry.empty.attempts batch.definitions)[i]? = some refusal ∧
      (v.Agrees refusal ↔ ¬ UsedUp (batch.definitions.take i) d.name) := by
  have checked := getElem?_validateAll [] batch.definitions i
  have attempted := Registry.getElem?_attempts_empty batch.definitions i
  rw [found, Option.map_some] at checked attempted
  have entry : (validate batch)[batch.rejected.length + i]? = (validateAll [] batch.definitions)[i]? := by
    rw [validate, List.getElem?_append_right (by simp), List.length_map, Nat.add_sub_cancel_left]
  refine ⟨_, _, entry.trans checked, rfl, attempted, ?_⟩
  rw [Validation.agrees_iff, Option.map_map]
  exact refusal_agrees_iff (batch.definitions.take i) d

/-! ## A name that is used up -/

/-- A rule without actions that tests whether a field is one. -/
def RuleDefinition.testingOne (name operator : String) : RuleDefinition :=
  ⟨name, ⟨.all, [.test (.literal "a" operator (.number (.int 1 (by decide))))]⟩, []⟩

/-- A document of two rules of one name, the first of them with an operator that is not known. -/
def usedUpDocument : Value :=
  let rule (operator : String) : Value := .object
    [("name", .string "x"),
     ("condition", .object [("all", .array [.object
       [("field", .string "a"), ("operator", .string operator), ("value", .number (.int 1 (by decide)))]])])]
  .array [rule "~", rule "=="]

/-- The answers for the second rule of the document. -/
theorem validation_agrees_iff_second :
    let batch : RuleBatch := ⟨[.testingOne "x" "~", .testingOne "x" "=="], []⟩
    batch.definitions[1]? = some (.testingOne "x" "==") ∧
    ∃ v refusal, (validate batch)[batch.rejected.length + 1]? = some v ∧ v.name = "x" ∧
      (Registry.empty.attempts batch.definitions)[1]? = some refusal ∧
      (v.Agrees refusal ↔ ¬ UsedUp (batch.definitions.take 1) "x") := by
  intro batch
  have second : batch.definitions[1]? = some (.testingOne "x" "==") := rfl
  exact ⟨second, validation_agrees_iff batch second⟩

/-- The second rule of the document is registered, and validation refuses it: its name is taken by then. -/
theorem validation_refuses_registered :
    ∃ batch v, RuleBatch.ofDocument usedUpDocument = .ok batch ∧
      batch.definitions = [.testingOne "x" "~", .testingOne "x" "=="] ∧
      (Registry.empty.attempts batch.definitions)[1]? = some none ∧
      (validate batch)[batch.rejected.length + 1]? = some v ∧
      v = ⟨"x", some (.refused (.duplicateName "x"))⟩ ∧ ¬ v.Agrees none := by
  refine ⟨⟨[.testingOne "x" "~", .testingOne "x" "=="], []⟩, _, rfl, rfl, rfl, rfl, rfl, ?_⟩
  rintro ⟨agree, -⟩
  cases agree.mpr rfl

end Rulebook
