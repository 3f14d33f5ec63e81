import Mathlib.Logic.Relation
import Rulebook.Proofs.Rule.WellFormed

/-!
# `Rulebook.Proofs.Rule.Meaning` — a compiled condition means what is written

What a condition says can be read off the condition as it is written: a test looks up the values that its texts lead to
and compares them, a group asks for all of its members or for one of them. Nothing in that depends on the order of
members. The predicate that a condition compiles to, which looks at members in their order and stops at the first one
that decides, gives the same answer on every fact.

* `Fact.lookup`, `FieldTest.Holds`, `Condition.Holds` — what a condition says, without paths and operators being read
* `Condition.CompilesTo.holds_iff` — the predicate of a condition holds where the condition does
* `Condition.Reordered` — members of groups in another order, at any depth
* `RuleDefinition.compile_keeps_meaning` — a rule applies where its condition holds, in whatever order it is written
-/

namespace Rulebook

/-! ## Values of a fact -/

/-- The value that a text leads to in a fact: from the fact down, one step for each piece between dots. -/
def Fact.lookup (fact : Fact) (text : String) : Option Value :=
  ((Text.splitText '.' text).map Text.trim).foldlM Path.child? fact.value

/-- A path leads where its text leads. -/
theorem Fact.get_eq_lookup {text : String} {p : Path} (h : Path.parse text = .ok p) (fact : Fact) :
    fact.get p = fact.lookup text := by
  rw [Fact.lookup, ← Path.segments_of_parse h, Path.segments, List.map_cons, List.foldlM_cons]
  rfl

/-! ## What a condition says -/

/-- The value that a test compares its field with: the one that is written, or the one that its second path leads to. -/
def FieldTest.compared? (fact : Fact) (t : FieldTest) : Option Value :=
  match t.value, t.valueField with
  | some v, _ => some v
  | none, some text => fact.lookup text
  | none, none => none

/-- **What a test says**: the operator holds between the two values, and where one of them is absent the operator is the
    one for values that differ. -/
def FieldTest.Holds (fact : Fact) (t : FieldTest) : Prop :=
  match fact.lookup t.field, t.compared? fact with
  | some v, some w => ∃ op : Operator, op.symbol = Text.trim t.operator ∧ op.holdsOn v w = true
  | _, _ => Text.trim t.operator = "!="

/-- **What a condition says.** -/
inductive Condition.Holds (fact : Fact) : Condition → Prop where
  | test {t : FieldTest} : t.Holds fact → Holds fact (.test t)
  | all {members : List Condition} : (∀ c ∈ members, Holds fact c) → Holds fact (.group .all members)
  | any {members : List Condition} {c : Condition} : c ∈ members → Holds fact c → Holds fact (.group .any members)

section

variable {fact : Fact}

theorem Condition.holds_test_iff {t : FieldTest} : (Condition.test t).Holds fact ↔ t.Holds fact := by
  constructor
  · intro h
    cases h with
    | test h => exact h
  · exact .test

theorem Condition.holds_all_iff {members : List Condition} :
    (Condition.group .all members).Holds fact ↔ ∀ c ∈ members, c.Holds fact := by
  constructor
  · intro h
    cases h with
    | all h => exact h
  · exact .all

theorem Condition.holds_any_iff {members : List Condition} :
    (Condition.group .any members).Holds fact ↔ ∃ c ∈ members, c.Holds fact := by
  constructor
  · intro h
    cases h with
    | any mem h => exact ⟨_, mem, h⟩
  · rintro ⟨c, mem, h⟩
    exact .any mem h

/-! ## Predicates -/

theorem Predicate.allHold_iff {ps : List Predicate} :
    Predicate.allHold fact ps = true ↔ ∀ p ∈ ps, p.holds fact = true := by
  induction ps with
  | nil => simp [Predicate.allHold]
  | cons p ps ih => rw [Predicate.allHold, Bool.and_eq_true, ih, List.forall_mem_cons]

theorem Predicate.anyHolds_iff {ps : List Predicate} :
    Predicate.anyHolds fact ps = true ↔ ∃ p ∈ ps, p.holds fact = true := by
  induction ps with
  | nil => simp [Predicate.anyHolds]
  | cons p ps ih => rw [Predicate.anyHolds, Bool.or_eq_true, ih, List.exists_mem_cons_iff]

/-- Two lists of which the members agree one by one agree on all of them, and on one of them. -/
theorem forall₂_quantifiers {α β : Type} {P : α → Prop} {Q : β → Prop} {xs : List α} {ys : List β}
    (h : List.Forall₂ (fun x y => P x ↔ Q y) xs ys) :
    ((∀ x ∈ xs, P x) ↔ ∀ y ∈ ys, Q y) ∧ ((∃ x ∈ xs, P x) ↔ ∃ y ∈ ys, Q y) := by
  induction h with
  | nil => simp
  | cons first _ ih =>
      rw [List.forall_mem_cons, List.forall_mem_cons, List.exists_mem_cons_iff, List.exists_mem_cons_iff]
      exact ⟨and_congr first ih.1, or_congr first ih.2⟩

/-- What a compiled test compares with has the value that the test as it is written compares with. -/
theorem FieldTest.value?_of_operand? {t : FieldTest} {operand : Operand} (h : t.operand? = some operand) :
    operand.value? fact = t.compared? fact := by
  obtain ⟨field, operator, value, valueField⟩ := t
  unfold FieldTest.operand? at h
  unfold FieldTest.compared?
  cases value with
  | some v =>
      cases valueField with
      | none =>
          cases h
          rfl
      | some text => cases h
  | none =>
      cases valueField with
      | none => cases h
      | some text =>
          cases parsed : Path.parse text with
          | error e => simp [parsed, Except.toOption] at h
          | ok p =>
              simp only [parsed, Except.toOption, Option.map_some, Option.some.injEq] at h
              subst h
              exact Fact.get_eq_lookup parsed fact

/-- A compiled test holds where the test as it is written does. -/
theorem FieldTest.holds_iff {t : FieldTest} {op : Operator} {field : Path} {operand : Operand}
    (operator : Operator.parse t.operator = some op) (path : Path.parse t.field = .ok field)
    (compared : t.operand? = some operand) :
    (Predicate.test field op operand).holds fact = true ↔ t.Holds fact := by
  have symbol : op.symbol = Text.trim t.operator := Operator.parse_eq_some_iff.mp operator
  have differ : Text.trim t.operator = "!=" ↔ op = .ne := by
    rw [← symbol]
    cases op <;> decide
  rw [Predicate.holds, Fact.get_eq_lookup path, FieldTest.value?_of_operand? compared, FieldTest.Holds]
  cases fact.lookup t.field with
  | none => simp [Operator.holds, differ]
  | some v =>
      cases t.compared? fact with
      | none => simp [Operator.holds, differ]
      | some w =>
          rw [Operator.holds]
          constructor
          · intro holds
            exact ⟨op, symbol, holds⟩
          · rintro ⟨op', symbol', holds⟩
            -- There is one operator with the text.
            have same : op' = op := by
              have found := Operator.parse_eq_some_iff.mpr symbol'
              rw [operator] at found
              exact (Option.some.inj found).symm
            exact same ▸ holds

/-- **The predicate of a condition holds where the condition does.** -/
theorem Condition.CompilesTo.holds_iff {c : Condition} {p : Predicate} (h : c.CompilesTo p) :
    p.holds fact = true ↔ c.Holds fact := by
  induction c generalizing p with
  | test t =>
      cases h with
      | test operator path compared =>
          rw [Condition.holds_test_iff]
          exact FieldTest.holds_iff operator path compared
  | group how members ih =>
      cases h with
      | group _ compiled =>
          have alike := (List.forall₂_and_left (p := fun c => ∀ {p}, c.CompilesTo p → (p.holds fact = true ↔ c.Holds fact))
            members _).mpr ⟨fun c hc => ih c hc, compiled⟩
          obtain ⟨all, any⟩ := forall₂_quantifiers (alike.imp fun c p h => (h.1 h.2).symm)
          cases how with
          | all => rw [Predicate.holds, Predicate.allHold_iff, Condition.holds_all_iff, all]
          | any => rw [Predicate.holds, Predicate.anyHolds_iff, Condition.holds_any_iff, any]

end

/-! ## Order -/

/-- One group of a condition, at any depth, has its members in another order. -/
inductive Condition.Reorders : Condition → Condition → Prop where
  | members {how : Combinator} {cs cs' : List Condition} : cs.Perm cs' → Reorders (.group how cs) (.group how cs')
  | inside {how : Combinator} {before after : List Condition} {c c' : Condition} : Reorders c c' →
      Reorders (.group how (before ++ c :: after)) (.group how (before ++ c' :: after))

/-- **A condition with the members of its groups in another order**, at any depth and any number of times. -/
def Condition.Reordered : Condition → Condition → Prop := Relation.ReflTransGen Condition.Reorders

/-- One change of order leaves a condition well-formed and does not change what it says. -/
theorem Condition.Reorders.keeps {c c' : Condition} (h : c.Reorders c') :
    (c.WellFormed → c'.WellFormed) ∧ ∀ fact, c.Holds fact ↔ c'.Holds fact := by
  induction h with
  | @members how cs cs' perm =>
      constructor
      · intro wf
        cases wf with
        | group some wf =>
            refine .group (fun none => some ?_) fun c hc => wf c (perm.mem_iff.mpr hc)
            rw [none] at perm
            exact perm.eq_nil
      · intro fact
        cases how with
        | all => simp only [Condition.holds_all_iff, perm.mem_iff]
        | any => simp only [Condition.holds_any_iff, perm.mem_iff]
  | @inside how before after c c' _ ih =>
      constructor
      · intro wf
        cases wf with
        | group _ wf =>
            obtain ⟨wfBefore, wfRest⟩ := List.forall_mem_append.mp wf
            obtain ⟨wfHere, wfAfter⟩ := List.forall_mem_cons.mp wfRest
            refine .group (by simp) (List.forall_mem_append.mpr ⟨wfBefore, ?_⟩)
            exact List.forall_mem_cons.mpr ⟨ih.1 wfHere, wfAfter⟩
      · intro fact
        cases how with
        | all => simp only [Condition.holds_all_iff, List.forall_mem_append, List.forall_mem_cons, ih.2 fact]
        | any => simp only [Condition.holds_any_iff, List.mem_append, List.mem_cons, or_and_right, exists_or,
            exists_eq_left, ih.2 fact]

/-- Any change of order does. -/
theorem Condition.Reordered.keeps {c c' : Condition} (h : c.Reordered c') :
    (c.WellFormed → c'.WellFormed) ∧ ∀ fact, c.Holds fact ↔ c'.Holds fact := by
  induction h with
  | refl => exact ⟨id, fun _ => Iff.rfl⟩
  | tail _ last ih => exact ⟨last.keeps.1 ∘ ih.1, fun fact => (ih.2 fact).trans (last.keeps.2 fact)⟩

/-! ## Rules -/

/-- **A rule applies where its condition holds, in whatever order that is written.** A rule that compiles applies to
    a fact exactly where what is written as its condition holds on it; and with the members of any groups of the
    condition in another order, at any depth, it still compiles, and applies to the same facts. -/
theorem RuleDefinition.compile_keeps_meaning {d : RuleDefinition} {r : CompiledRule} (h : d.compile = .ok r) :
    (∀ fact, r.applies fact = true ↔ d.condition.toCondition.Holds fact) ∧
    ∀ g : Group, d.condition.toCondition.Reordered g.toCondition →
      ∃ r', { d with condition := g }.compile = .ok r' ∧ ∀ fact, r'.applies fact = r.applies fact := by
  have meaning : ∀ {d : RuleDefinition} {r : CompiledRule}, d.compile = .ok r →
      ∀ fact, r.applies fact = true ↔ d.condition.toCondition.Holds fact := by
    intro d r h fact
    obtain ⟨-, -, condition, -⟩ := RuleDefinition.compile_eq_ok_iff.mp h
    exact condition.holds_iff
  refine ⟨meaning h, ?_⟩
  intro g reordered
  obtain ⟨keepsForm, keepsMeaning⟩ := reordered.keeps
  have wf : d.WellFormed := RuleDefinition.compiles_iff_wellFormed.mp ⟨r, h⟩
  obtain ⟨r', compiled⟩ := RuleDefinition.compiles_iff_wellFormed.mpr
    (show { d with condition := g }.WellFormed from ⟨wf.name, keepsForm wf.condition, wf.actions⟩)
  refine ⟨r', compiled, ?_⟩
  intro fact
  rw [Bool.eq_iff_iff, meaning compiled fact, meaning h fact]
  exact (keepsMeaning fact).symm

/-- A rule with a group inside of another one, and the same rule with the members of both in another order. -/
theorem RuleDefinition.compile_keeps_meaning_nested :
    let differs : Condition := .test (.literal "a.b" " != " .null)
    let below : Condition := .test (.reference "x" "<" "y. 0")
    let enough : Condition := .test (.literal "z" ">=" (.number (.int 1 (by decide))))
    let d : RuleDefinition := ⟨"r", ⟨.all, [.group .any [differs, below], enough]⟩, []⟩
    let g : Group := ⟨.all, [enough, .group .any [below, differs]]⟩
    ∃ r r', d.compile = .ok r ∧ (∀ fact, r.applies fact = true ↔ d.condition.toCondition.Holds fact) ∧
      d.condition.toCondition.Reordered g.toCondition ∧
      { d with condition := g }.compile = .ok r' ∧ ∀ fact, r'.applies fact = r.applies fact := by
  intro differs below enough d g
  have compiles : ∃ r, d.compile = .ok r := by
    subst differs below enough d
    exact ⟨_, rfl⟩
  obtain ⟨r, compiled⟩ := compiles
  obtain ⟨meaning, order⟩ := RuleDefinition.compile_keeps_meaning compiled
  -- First the members of the inner group change places, then those of the outer one.
  have inner : Condition.Reorders d.condition.toCondition (.group .all [.group .any [below, differs], enough]) :=
    @Condition.Reorders.inside .all [] [enough] _ _ (.members (List.Perm.swap below differs []))
  have outer : Condition.Reorders (.group .all [.group .any [below, differs], enough]) g.toCondition :=
    .members (List.Perm.swap enough _ [])
  have reordered : d.condition.toCondition.Reordered g.toCondition := (Relation.ReflTransGen.single inner).tail outer
  obtain ⟨r', compiled', same⟩ := order g reordered
  exact ⟨r, r', compiled, meaning, reordered, compiled', same⟩

end Rulebook
