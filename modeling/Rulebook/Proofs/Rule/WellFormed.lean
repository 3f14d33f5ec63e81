import Mathlib.Data.List.Forall2
import Rulebook.Proofs.Except
import Rulebook.Proofs.Path.Texts
import Rulebook.Rule.Compiled

/-!
# `Rulebook.Proofs.Rule.WellFormed` — which rules compile, and to what

Checking a rule goes through it part by part, and what it makes of a part depends on this part alone: the name of the
rule and the place of the part are for errors only. So compiling is a relation between what is written and what is
made of it (`Condition.CompilesTo`, `ActionSpec.CompilesTo`), and a rule compiles exactly where every part of it is
well-formed.

* `Condition.WellFormed`, `RuleDefinition.WellFormed` — what it takes to be well-formed, said without the check
* `RuleDefinition.compile_eq_ok_iff` — what a rule compiles to, part by part
* `RuleDefinition.compiles_iff_wellFormed` — a rule compiles exactly where it is well-formed
-/

namespace Rulebook

/-! ## Operators -/

/-- The texts of the six operators. -/
def operatorSymbols : List String := ["==", "!=", "<", ">", "<=", ">="]

/-- The operator of a text is the one with this text, blanks around it apart. -/
theorem Operator.parse_eq_some_iff {s : String} {op : Operator} :
    Operator.parse s = some op ↔ op.symbol = Text.trim s := by
  constructor
  · intro h
    rw [Operator.parse] at h
    have found := List.find?_some h
    exact eq_of_beq found
  · intro h
    rw [Operator.parse, ← h]
    cases op <;> rfl

theorem Operator.exists_parse_iff {s : String} :
    (∃ op, Operator.parse s = some op) ↔ Text.trim s ∈ operatorSymbols := by
  have symbols : operatorSymbols = Operator.all.map Operator.symbol := rfl
  have every : ∀ op, op ∈ Operator.all := by
    intro op
    cases op <;> decide
  rw [symbols, List.mem_map]
  refine exists_congr fun op => ?_
  rw [Operator.parse_eq_some_iff, and_iff_right (every op)]

/-! ## Tests -/

/-- A test is well-formed: its operator is one of the six, its paths are paths, and it has either a value or a path to
    compare with. The value may be null. -/
structure FieldTest.WellFormed (t : FieldTest) : Prop where
  operator : Text.trim t.operator ∈ operatorSymbols
  field : IsPathText t.field
  reference : ∀ text, t.valueField = some text → IsPathText text
  operand : t.value.isSome = true ↔ t.valueField = none

/-- What a test compares with. -/
def FieldTest.operand? (t : FieldTest) : Option Operand :=
  match t.value, t.valueField with
  | some v, none => some (.literal v)
  | none, some text => (Path.parse text).toOption.map .field
  | _, _ => none

theorem pathAt_eq_ok {rule : String} {place : Place} {text : String} {p : Path} :
    pathAt rule place text = .ok p ↔ Path.parse text = .ok p := mapError_eq_ok

/-- **What a test compiles to**: its path, its operator and what it compares with. -/
theorem FieldTest.compile_eq_ok_iff {rule : String} {place : Place} {t : FieldTest} {p : Predicate} :
    t.compile rule place = .ok p ↔ ∃ op field operand, Operator.parse t.operator = some op ∧
      Path.parse t.field = .ok field ∧ t.operand? = some operand ∧ p = .test field op operand := by
  obtain ⟨field, operator, value, valueField⟩ := t
  unfold FieldTest.compile FieldTest.operand?
  cases Operator.parse operator with
  | none => simp [throw, throwThe, MonadExceptOf.throw]
  | some op =>
      cases parsed : Path.parse field with
      | error e => simp [pathAt, parsed, bind, Except.bind]
      | ok x =>
          have read : pathAt rule place field = .ok x := pathAt_eq_ok.mpr parsed
          simp only [read, bind, Except.bind]
          cases value with
          | some v =>
              cases valueField with
              | none => simp [pure, Except.pure, eq_comm]
              | some text => simp [throw, throwThe, MonadExceptOf.throw]
          | none =>
              cases valueField with
              | none => simp [throw, throwThe, MonadExceptOf.throw]
              | some text =>
                  cases parsed' : Path.parse text with
                  | error e => simp [pathAt, parsed', Except.toOption]
                  | ok y => simp [pathAt, parsed', Except.toOption, pure, Except.pure, eq_comm]

/-- A test compares with something exactly where it has either a value or a path, and a path that is one. -/
theorem FieldTest.exists_operand?_iff {t : FieldTest} :
    (∃ operand, t.operand? = some operand) ↔
      (t.value.isSome = true ↔ t.valueField = none) ∧ ∀ text, t.valueField = some text → IsPathText text := by
  obtain ⟨field, operator, value, valueField⟩ := t
  unfold FieldTest.operand?
  cases value with
  | some v => cases valueField <;> simp
  | none =>
      cases valueField with
      | none => simp
      | some text =>
          simp only [Option.isSome_none, Bool.false_eq_true, reduceCtorEq, Option.some.injEq, forall_eq', true_and,
            ← Path.parse_isOk_iff]
          cases Path.parse text <;> simp [Except.toOption]

/-! ## Conditions -/

/-- What holds of every test, and of every group whose members have it, holds of every condition. -/
@[elab_as_elim, induction_eliminator]
theorem Condition.induct {motive : Condition → Prop} (test : ∀ t, motive (.test t))
    (group : ∀ how members, (∀ c ∈ members, motive c) → motive (.group how members)) : ∀ c, motive c
  | .test t => test t
  | .group how members => group how members fun c _ => Condition.induct test group c

/-- A condition is well-formed: every group in it has a member, and every test in it is well-formed. -/
inductive Condition.WellFormed : Condition → Prop where
  | test {t : FieldTest} : t.WellFormed → WellFormed (.test t)
  | group {how : Combinator} {members : List Condition} :
      members ≠ [] → (∀ c ∈ members, WellFormed c) → WellFormed (.group how members)

/-- **What a condition compiles to**: tests and groups in the same places. -/
inductive Condition.CompilesTo : Condition → Predicate → Prop where
  | test {t : FieldTest} {op : Operator} {field : Path} {operand : Operand} :
      Operator.parse t.operator = some op → Path.parse t.field = .ok field → t.operand? = some operand →
      CompilesTo (.test t) (.test field op operand)
  | group {how : Combinator} {members : List Condition} {ps : List Predicate} :
      members ≠ [] → List.Forall₂ CompilesTo members ps → CompilesTo (.group how members) (.group how ps)

/-- The members of a group compile one by one, whatever their places are. -/
theorem Condition.compileMembers_eq_ok_iff {rule : String} {cs : List Condition}
    (each : ∀ c ∈ cs, ∀ route p, c.compile rule route = .ok p ↔ c.CompilesTo p) (route : List Nat) (i : Nat)
    (ps : List Predicate) :
    Condition.compileMembers rule route i cs = .ok ps ↔ List.Forall₂ Condition.CompilesTo cs ps := by
  induction cs generalizing i ps with
  | nil =>
      rw [Condition.compileMembers, List.forall₂_nil_left_iff]
      simp [eq_comm]
  | cons c cs ih =>
      obtain ⟨first, others⟩ := List.forall_mem_cons.mp each
      rw [Condition.compileMembers, List.forall₂_cons_left_iff, bind_eq_ok]
      constructor
      · rintro ⟨p, compiled, h⟩
        obtain ⟨rest, compiled', h⟩ := bind_eq_ok.mp h
        cases h
        exact ⟨p, rest, (first _ p).mp compiled, (ih others _ rest).mp compiled', rfl⟩
      · rintro ⟨p, rest, compiled, compiled', rfl⟩
        exact ⟨p, (first _ p).mpr compiled, bind_eq_ok.mpr ⟨rest, (ih others _ rest).mpr compiled', rfl⟩⟩

/-- The check of a condition comes to what it compiles to. -/
theorem Condition.compile_eq_ok_iff {rule : String} {route : List Nat} {c : Condition} {p : Predicate} :
    c.compile rule route = .ok p ↔ c.CompilesTo p := by
  induction c generalizing route p with
  | test t =>
      rw [Condition.compile, FieldTest.compile_eq_ok_iff]
      constructor
      · rintro ⟨op, field, operand, operator, path, compared, rfl⟩
        exact .test operator path compared
      · intro h
        cases h with
        | test operator path compared => exact ⟨_, _, _, operator, path, compared, rfl⟩
  | group how members ih =>
      have each : ∀ c ∈ members, ∀ route p, c.compile rule route = .ok p ↔ c.CompilesTo p :=
        fun c hc route p => ih c hc
      cases members with
      | nil =>
          constructor
          · intro h
            cases h
          · intro h
            cases h with
            | group some _ => exact absurd rfl some
      | cons c cs =>
          rw [Condition.compile, bind_eq_ok]
          constructor
          · rintro ⟨ps, compiled, h⟩
            cases h
            exact .group (List.cons_ne_nil c cs) ((Condition.compileMembers_eq_ok_iff each _ _ ps).mp compiled)
          · intro h
            cases h with
            | group _ compiled => exact ⟨_, (Condition.compileMembers_eq_ok_iff each _ _ _).mpr compiled, rfl⟩

/-- There is a list that a list is related to member by member where each member is related to something. -/
theorem exists_forall₂_iff {α β : Type} {R : α → β → Prop} {xs : List α} :
    (∃ ys, List.Forall₂ R xs ys) ↔ ∀ x ∈ xs, ∃ y, R x y := by
  induction xs with
  | nil => exact iff_of_true ⟨[], .nil⟩ (by simp)
  | cons x xs ih =>
      rw [List.forall_mem_cons, ← ih]
      constructor
      · rintro ⟨ys, related⟩
        cases related with
        | cons first others => exact ⟨⟨_, first⟩, ⟨_, others⟩⟩
      · rintro ⟨⟨y, first⟩, ⟨ys, others⟩⟩
        exact ⟨y :: ys, .cons first others⟩

/-- A condition compiles to something exactly where it is well-formed. -/
theorem Condition.exists_compilesTo_iff {c : Condition} : (∃ p, c.CompilesTo p) ↔ c.WellFormed := by
  induction c with
  | test t =>
      constructor
      · rintro ⟨p, compiled⟩
        cases compiled with
        | test operator path compared =>
            obtain ⟨operand, reference⟩ := FieldTest.exists_operand?_iff.mp ⟨_, compared⟩
            exact .test ⟨Operator.exists_parse_iff.mp ⟨_, operator⟩, Path.parse_isOk_iff.mp ⟨_, path⟩, reference, operand⟩
      · intro wf
        cases wf with
        | test wf =>
            obtain ⟨op, operator⟩ := Operator.exists_parse_iff.mpr wf.operator
            obtain ⟨field, path⟩ := Path.parse_isOk_iff.mpr wf.field
            obtain ⟨operand, compared⟩ := FieldTest.exists_operand?_iff.mpr ⟨wf.operand, wf.reference⟩
            exact ⟨_, .test operator path compared⟩
  | group how members ih =>
      have all : (∃ ps, List.Forall₂ Condition.CompilesTo members ps) ↔ ∀ c ∈ members, c.WellFormed := by
        rw [exists_forall₂_iff]
        exact forall₂_congr ih
      constructor
      · rintro ⟨p, compiled⟩
        cases compiled with
        | group some compiled => exact .group some (all.mp ⟨_, compiled⟩)
      · intro wf
        cases wf with
        | group some wf =>
            obtain ⟨ps, compiled⟩ := all.mpr wf
            exact ⟨_, .group some compiled⟩

/-! ## Actions -/

/-- **What an action compiles to.** The expression of an update is read, and what is wrong with it is kept. -/
inductive ActionSpec.CompilesTo : ActionSpec → Action → Prop where
  | update {target source : String} {path : Path} : Path.parse target = .ok path →
      CompilesTo (.update target source) (.update path source (Expression.parse source))
  | redistribute {params : Fields} : CompilesTo (.redistribute params) (.redistribute params)
  | alert {message : String} : CompilesTo (.alert message) (.alert message)
  | notify {recipient : Option String} {template : String} :
      CompilesTo (.notify recipient template) (.notify recipient template)

/-- An action is well-formed: the target of an update is a path. Its expression may be anything. -/
def ActionSpec.WellFormed : ActionSpec → Prop
  | update target _ => IsPathText target
  | _ => True

theorem ActionSpec.compile_eq_ok_iff {rule : String} {i : Nat} {a : ActionSpec} {action : Action} :
    a.compile rule i = .ok action ↔ a.CompilesTo action := by
  cases a with
  | update target source =>
      rw [ActionSpec.compile, bind_eq_ok]
      constructor
      · rintro ⟨path, parsed, h⟩
        cases h
        exact .update (pathAt_eq_ok.mp parsed)
      · intro h
        cases h with
        | update parsed => exact ⟨_, pathAt_eq_ok.mpr parsed, rfl⟩
  | redistribute params => exact ⟨fun h => by cases h; exact .redistribute, fun h => by cases h; rfl⟩
  | alert message => exact ⟨fun h => by cases h; exact .alert, fun h => by cases h; rfl⟩
  | notify recipient template => exact ⟨fun h => by cases h; exact .notify, fun h => by cases h; rfl⟩

theorem ActionSpec.exists_compilesTo_iff {a : ActionSpec} : (∃ action, a.CompilesTo action) ↔ a.WellFormed := by
  cases a with
  | update target source =>
      rw [ActionSpec.WellFormed, ← Path.parse_isOk_iff]
      constructor
      · rintro ⟨action, compiled⟩
        cases compiled with
        | update parsed => exact ⟨_, parsed⟩
      · rintro ⟨path, parsed⟩
        exact ⟨_, .update parsed⟩
  | redistribute params => exact iff_of_true ⟨_, .redistribute⟩ trivial
  | alert message => exact iff_of_true ⟨_, .alert⟩ trivial
  | notify recipient template => exact iff_of_true ⟨_, .notify⟩ trivial

/-- The actions of a rule compile one by one. -/
theorem compileActions_eq_ok_iff {rule : String} {i : Nat} {specs : List ActionSpec} {actions : List Action} :
    compileActions rule i specs = .ok actions ↔ List.Forall₂ ActionSpec.CompilesTo specs actions := by
  induction specs generalizing i actions with
  | nil =>
      rw [compileActions, List.forall₂_nil_left_iff]
      simp [eq_comm]
  | cons a rest ih =>
      rw [compileActions, List.forall₂_cons_left_iff, bind_eq_ok]
      constructor
      · rintro ⟨action, compiled, h⟩
        obtain ⟨others, compiled', h⟩ := bind_eq_ok.mp h
        cases h
        exact ⟨action, others, ActionSpec.compile_eq_ok_iff.mp compiled, ih.mp compiled', rfl⟩
      · rintro ⟨action, others, compiled, compiled', rfl⟩
        exact ⟨action, ActionSpec.compile_eq_ok_iff.mpr compiled, bind_eq_ok.mpr ⟨others, ih.mpr compiled', rfl⟩⟩

/-! ## Rules -/

/-- A group as a condition. -/
def Group.toCondition (g : Group) : Condition := .group g.how g.members

/-- **A rule is well-formed**: its name is visible, and its condition and its actions are well-formed. -/
structure RuleDefinition.WellFormed (d : RuleDefinition) : Prop where
  name : Text.Visible d.name.toList
  condition : d.condition.toCondition.WellFormed
  actions : ∀ a ∈ d.actions, a.WellFormed

/-- **What a rule compiles to**, part by part. -/
theorem RuleDefinition.compile_eq_ok_iff {d : RuleDefinition} {r : CompiledRule} :
    d.compile = .ok r ↔ Text.Visible d.name.toList ∧ r.definition = d ∧
      d.condition.toCondition.CompilesTo r.condition ∧ List.Forall₂ ActionSpec.CompilesTo d.actions r.actions := by
  unfold RuleDefinition.compile
  dsimp only
  cases blank : Text.isBlankText d.name with
  | true =>
      have invisible : ¬ Text.Visible d.name.toList := by
        rw [← Text.isBlankText_eq_false_iff, blank]
        decide
      exact iff_of_false nofun fun h => invisible h.1
  | false =>
      rw [if_neg Bool.false_ne_true, and_iff_right (Text.isBlankText_eq_false_iff.mp blank)]
      constructor
      · intro h
        obtain ⟨condition, compiled, h⟩ := bind_eq_ok.mp h
        obtain ⟨actions, compiled', h⟩ := bind_eq_ok.mp h
        cases h
        exact ⟨rfl, Condition.compile_eq_ok_iff.mp compiled, compileActions_eq_ok_iff.mp compiled'⟩
      · obtain ⟨definition, condition, actions⟩ := r
        rintro ⟨rfl, compiled, compiled'⟩
        refine bind_eq_ok.mpr ⟨condition, Condition.compile_eq_ok_iff.mpr compiled, ?_⟩
        exact bind_eq_ok.mpr ⟨actions, compileActions_eq_ok_iff.mpr compiled', rfl⟩

/-- **A rule compiles exactly where it is well-formed.** -/
theorem RuleDefinition.compiles_iff_wellFormed {d : RuleDefinition} : (∃ r, d.compile = .ok r) ↔ d.WellFormed := by
  have actions : (∃ actions, List.Forall₂ ActionSpec.CompilesTo d.actions actions) ↔ ∀ a ∈ d.actions, a.WellFormed := by
    rw [exists_forall₂_iff]
    exact forall₂_congr fun a _ => ActionSpec.exists_compilesTo_iff
  constructor
  · rintro ⟨r, compiled⟩
    obtain ⟨visible, -, condition, acting⟩ := RuleDefinition.compile_eq_ok_iff.mp compiled
    exact ⟨visible, Condition.exists_compilesTo_iff.mp ⟨_, condition⟩, actions.mp ⟨_, acting⟩⟩
  · intro wf
    obtain ⟨p, condition⟩ := Condition.exists_compilesTo_iff.mpr wf.condition
    obtain ⟨as, acting⟩ := actions.mpr wf.actions
    exact ⟨⟨d, p, as⟩, RuleDefinition.compile_eq_ok_iff.mpr ⟨wf.name, rfl, condition, acting⟩⟩

end Rulebook
