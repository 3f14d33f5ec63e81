import Rulebook.Proofs.Reading

/-!
# `Rulebook.Proofs.Rule.RequiredFields` — the fields that a rule requires

A rule names its required fields by the texts of their paths, in order and each of them once. Nothing that the rule
reads is missing there: its condition reads the paths of its tests, the expression of an update reads the paths in it,
and the text of a path is read as that path again. So two facts that have the same values at the required fields are
the same for the rule, whatever else is in them. An expression that cannot be read requires nothing, and it fails in
the same way on every fact.

* `CompiledRule.mem_requiredFields` — the required fields are the texts of the paths that the rule reads
* `CompiledRule.get_eq_of_required` — facts that agree on the required fields agree on these paths
* `RuleDefinition.requiredFields_complete` — facts that agree on the required fields are the same for the rule
-/

namespace Rulebook

/-! ## Names in order -/

theorem mem_insertName {name other : String} {names : List String} :
    other ∈ insertName name names ↔ other = name ∨ other ∈ names := by
  induction names with
  | nil => rw [insertName, List.mem_cons]
  | cons n rest ih =>
      rw [insertName]
      by_cases same : name = n
      · subst same
        simp
      · rw [if_neg same]
        by_cases below : name < n
        · rw [if_pos below, List.mem_cons]
        · rw [if_neg below, List.mem_cons, List.mem_cons, ih]
          exact or_left_comm

/-- Sorting names and leaving repetitions out loses none of them. -/
theorem mem_distinctNames {name : String} {names : List String} : name ∈ distinctNames names ↔ name ∈ names := by
  induction names with
  | nil => exact Iff.rfl
  | cons n rest ih =>
      show name ∈ insertName n (distinctNames rest) ↔ name ∈ n :: rest
      rw [mem_insertName, ih, List.mem_cons]

/-! ## Required fields -/

/-- **The required fields are the texts of the paths that a rule reads**: in its condition, and in the expressions of
    its updates. -/
theorem CompiledRule.mem_requiredFields {r : CompiledRule} {text : String} :
    text ∈ r.requiredFields ↔ ∃ p : Path, (p ∈ r.condition.paths ∨ ∃ a ∈ r.actions, p ∈ a.paths) ∧ p.text = text := by
  unfold CompiledRule.requiredFields
  rw [mem_distinctNames, List.mem_map]
  apply exists_congr
  intro p
  rw [List.mem_append, List.mem_flatMap]

/-- Where two facts have the same values at the paths of all required fields, they have them at all paths that the rule
    reads: the text of a path is read as that path. -/
theorem CompiledRule.get_eq_of_required {r : CompiledRule} {f g : Fact}
    (same : ∀ text ∈ r.requiredFields, ∀ p, Path.parse text = .ok p → f.get p = g.get p) {p : Path}
    (read : p ∈ r.condition.paths ∨ ∃ a ∈ r.actions, p ∈ a.paths) : f.get p = g.get p := by
  have required : p.text ∈ r.requiredFields := CompiledRule.mem_requiredFields.mpr ⟨p, read, rfl⟩
  exact same p.text required p (Path.parse_text p)

/-! ## Expressions of updates -/

/-- Where two lists are related member by member, each member of the first is related to one of the second. -/
theorem exists_mem_of_forall₂ {α β : Type} {R : α → β → Prop} {xs : List α} {ys : List β} (h : List.Forall₂ R xs ys)
    {x : α} (mem : x ∈ xs) : ∃ y ∈ ys, R x y := by
  induction h with
  | nil => cases mem
  | cons here _ ih =>
      rcases List.mem_cons.mp mem with rfl | mem
      · exact ⟨_, List.mem_cons_self, here⟩
      · obtain ⟨y, hy, related⟩ := ih mem
        exact ⟨y, List.mem_cons_of_mem _ hy, related⟩

/-- The expression of an update that a rule declares is read when the rule is compiled. -/
theorem RuleDefinition.update_of_compile {d : RuleDefinition} {r : CompiledRule} (compiled : d.compile = .ok r)
    {target source : String} (declared : .update target source ∈ d.actions) :
    ∃ path, .update path source (Expression.parse source) ∈ r.actions := by
  obtain ⟨-, -, -, acting⟩ := RuleDefinition.compile_eq_ok_iff.mp compiled
  obtain ⟨action, mem, made⟩ := exists_mem_of_forall₂ acting declared
  cases made with
  | update _ => exact ⟨_, mem⟩

/-- **The required fields of a rule are complete.** Two facts with the same values at them satisfy the condition of the
    rule alike, and every update that the rule declares has the same result on both: the same scalar and the same
    value, or the same error about the same part of the expression. -/
theorem RuleDefinition.requiredFields_complete {d : RuleDefinition} {r : CompiledRule} (compiled : d.compile = .ok r)
    {f g : Fact} (same : ∀ text ∈ r.requiredFields, ∀ p, Path.parse text = .ok p → f.get p = g.get p) :
    r.applies f = r.applies g ∧
    ∀ target source, .update target source ∈ d.actions →
      (Expression.parse source >>= fun e => e.evaluate f) = (Expression.parse source >>= fun e => e.evaluate g) ∧
      (Expression.parse source >>= fun e => e.evaluateValue f) =
        (Expression.parse source >>= fun e => e.evaluateValue g) := by
  constructor
  · have tested : ∀ p ∈ r.condition.paths, f.get p = g.get p :=
      fun p hp => CompiledRule.get_eq_of_required same (.inl hp)
    show r.condition.holds f = r.condition.holds g
    exact Predicate.holds_congr tested
  · intro target source declared
    obtain ⟨path, mem⟩ := RuleDefinition.update_of_compile compiled declared
    cases parsed : Expression.parse source with
    | error e =>
        -- What cannot be read fails before any fact is looked at.
        exact ⟨rfl, rfl⟩
    | ok e =>
        rw [parsed] at mem
        have named : ∀ p ∈ e.fields, f.get p = g.get p :=
          fun p hp => CompiledRule.get_eq_of_required same (.inr ⟨_, mem, hp⟩)
        have scalar : e.evaluate f = e.evaluate g := Expression.evaluate_congr named
        have value : e.evaluateValue f = e.evaluateValue g := Expression.evaluateValue_congr named
        exact ⟨scalar, value⟩

/-- A rule that tests `x` and updates from `y`, with another update that cannot be read, on two facts that differ at
    `z`. -/
theorem RuleDefinition.requiredFields_complete_elsewhere :
    let one : Value := .number (.int 1 (by decide))
    let d : RuleDefinition :=
      ⟨"r", ⟨.all, [.test (.literal "x" "==" one)]⟩, [.update "n" " y + 1", .update "m" "z +"]⟩
    let fact (z : Value) : Fact := ⟨0, none, [("x", one), ("y", one), ("z", z)]⟩
    ∃ r, d.compile = .ok r ∧ r.requiredFields = ["x", "y"] ∧
      (∀ text ∈ r.requiredFields, ∀ p, Path.parse text = .ok p → (fact .null).get p = (fact one).get p) ∧
      r.applies (fact .null) = r.applies (fact one) ∧
      ∀ target source, .update target source ∈ d.actions →
        (Expression.parse source >>= fun e => e.evaluate (fact .null)) =
          (Expression.parse source >>= fun e => e.evaluate (fact one)) ∧
        (Expression.parse source >>= fun e => e.evaluateValue (fact .null)) =
          (Expression.parse source >>= fun e => e.evaluateValue (fact one)) := by
  intro one d fact
  have compiles : ∃ r, d.compile = .ok r ∧ r.requiredFields = ["x", "y"] := by
    subst d one
    exact ⟨_, rfl, rfl⟩
  obtain ⟨r, compiled, required⟩ := compiles
  have same : ∀ text ∈ r.requiredFields, ∀ p, Path.parse text = .ok p →
      (fact .null).get p = (fact one).get p := by
    intro text mem p parsed
    rw [required] at mem
    rcases List.mem_cons.mp mem with rfl | mem
    · cases parsed
      rfl
    · rw [List.mem_singleton.mp mem] at parsed
      cases parsed
      rfl
  exact ⟨r, compiled, required, same, RuleDefinition.requiredFields_complete compiled same⟩

end Rulebook
