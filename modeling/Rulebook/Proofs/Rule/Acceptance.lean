import Rulebook.Proofs.Execution
import Rulebook.Proofs.Rule.WellFormed

/-!
# `Rulebook.Proofs.Rule.Acceptance` — what stops a rule, and what does not

A rule is refused for what it would need in order to be evaluated: its name, its condition, the targets of its updates.
The expression of an update is no such thing. Whatever text it is, the rule compiles to the same condition and the same
other actions; and where the text cannot be read, that shows when the actions of the rule are performed and the turn of
the update comes, as the error of this one action. The actions before it have been performed by then, and those after it
are performed on the fact that they have left.

* `Task.whenOk` — a task followed by another one unless it ends with an error
* `performAll_unreadable` — an update that cannot be read fails in its turn, and in no other way
* `RuleDefinition.compiles_exactly` — which rules compile, and what becomes of expressions that cannot be read
-/

namespace Rulebook

/-! ## Series of actions -/

/-- A task followed by another one that depends on its result, unless it ends with an error. -/
def Task.whenOk {ε α β : Type} (t : Task (Except ε α)) (next : α → Task (Except ε β)) : Task (Except ε β) :=
  t.bind fun
    | .ok a => next a
    | .error e => .done (.error e)

/-- An action that cannot be prepared is reported, and the series goes on. -/
theorem performAll_of_error {timeout : Nat} {rule : String} {a : Action} {report : Report} {e : ActionError}
    (h : a.prepare rule report.fact = .error e) (rest : List Action) :
    performAll timeout rule (a :: rest) report = performAll timeout rule rest (report.fail a.kind e) := by
  rw [performAll, h]

/-- **An update that cannot be read fails in its turn.** Where there is a fact, a series of actions with such an update
    in it is the series of the actions before it, then its error, and then the series of the actions after it. -/
theorem performAll_unreadable {path : Path} {source : String} {e : ExpressionError} (timeout : Nat) (rule : String)
    (as bs : List Action) {report : Report} {fact : Fact} (there : report.fact = some fact) :
    performAll timeout rule (as ++ .update path source (.error e) :: bs) report =
      (performAll timeout rule as report).whenOk fun report' =>
        performAll timeout rule bs (report'.fail .update (.expression e)) := by
  induction as generalizing report fact with
  | nil =>
      have fails : (Action.update path source (.error e)).prepare rule report.fact = .error (.expression e) := by
        rw [there]
        rfl
      exact performAll_of_error fails bs
  | cons a rest ih =>
      rw [List.cons_append]
      cases prepared : a.prepare rule report.fact with
      | error e' =>
          have kept : (report.fail a.kind e').fact = some fact := there
          rw [performAll_of_error prepared, performAll_of_error prepared]
          exact ih kept
      | ok offer =>
          rw [performAll, performAll, prepared]
          -- Every verdict but a crash leaves a fact for the actions that come next.
          rw [there] at prepared
          obtain ⟨g, -, staged, -⟩ := Action.prepare_spec prepared
          show Task.emit offer.emission _ = Task.emit offer.emission _
          congr 1
          funext v
          cases v with
          | accept =>
              have taken : (report.apply offer).fact = some g := staged
              exact ih taken
          | refuse reason =>
              have kept : (report.fail a.kind (.refused reason)).fact = some fact := there
              exact ih kept
          | hang =>
              have kept : (report.fail a.kind (.timedOut timeout)).fact = some fact := there
              exact ih kept
          | crash reason => rfl

/-! ## Rules -/

/-- What a list with one member in its middle compiles to. -/
theorem forall₂_middle {α β : Type} {R : α → β → Prop} {before after : List α} {x : α} {ys : List β}
    (h : List.Forall₂ R (before ++ x :: after) ys) :
    ∃ as y bs, ys = as ++ y :: bs ∧ List.Forall₂ R before as ∧ R x y ∧ List.Forall₂ R after bs := by
  induction before generalizing ys with
  | nil =>
      cases h with
      | cons here others => exact ⟨[], _, _, rfl, .nil, here, others⟩
  | cons w before ih =>
      cases h with
      | cons first others =>
          obtain ⟨as, y, bs, rfl, left, here, right⟩ := ih others
          exact ⟨_ :: as, y, bs, rfl, .cons first left, here, right⟩

/-- **Exactly the well-formed rules compile, whatever the expressions of their updates are.** In the rule that comes of
    it, every update has its place and its expression read as far as it can be; another text in the place of this
    expression changes nothing else; and a text that cannot be read is an error of this action in its turn, with what
    is wrong in the text, while all other actions are performed as they are. -/
theorem RuleDefinition.compiles_exactly (d : RuleDefinition) :
    ((∃ r, d.compile = .ok r) ↔ d.WellFormed) ∧
    ∀ r, d.compile = .ok r → ∀ (before after : List ActionSpec) (target source : String),
      d.actions = before ++ .update target source :: after →
      ∃ (as : List Action) (path : Path) (bs : List Action),
        r.actions = as ++ .update path source (Expression.parse source) :: bs ∧ as.length = before.length ∧
        (∀ source', let d' : RuleDefinition := { d with actions := before ++ .update target source' :: after }
          d'.compile = .ok ⟨d', r.condition, as ++ .update path source' (Expression.parse source') :: bs⟩) ∧
        ∀ e, Expression.parse source = .error e → ∀ timeout fact,
          r.perform timeout (some fact) =
            (performAll timeout r.name as ⟨[], [], some fact⟩).whenOk fun report =>
              performAll timeout r.name bs (report.fail .update (.expression e)) := by
  refine ⟨RuleDefinition.compiles_iff_wellFormed, ?_⟩
  intro r compiled before after target source written
  obtain ⟨visible, -, condition, acting⟩ := RuleDefinition.compile_eq_ok_iff.mp compiled
  rw [written] at acting
  obtain ⟨as, action, bs, actions, left, here, right⟩ := forall₂_middle acting
  cases here with
  | @update _ _ path parsed =>
      refine ⟨as, path, bs, actions, left.length_eq.symm, ?_, ?_⟩
      · intro source' d'
        have acting' : List.Forall₂ ActionSpec.CompilesTo d'.actions
            (as ++ Action.update path source' (Expression.parse source') :: bs) :=
          List.rel_append left (.cons (ActionSpec.CompilesTo.update parsed) right)
        exact RuleDefinition.compile_eq_ok_iff.mpr ⟨visible, rfl, condition, acting'⟩
      · intro e unreadable timeout fact
        rw [unreadable] at actions
        rw [CompiledRule.perform, actions]
        exact performAll_unreadable timeout r.name as bs rfl

/-- A rule with an update that cannot be read between two alerts. -/
theorem RuleDefinition.compiles_exactly_unreadable :
    let d : RuleDefinition :=
      ⟨"r", ⟨.any, [.test (.literal "x" "==" .null)]⟩, [.alert "before", .update "n" "1 +", .alert "after"]⟩
    ∃ r e, d.WellFormed ∧ d.compile = .ok r ∧ Expression.parse "1 +" = .error e ∧
      ∀ timeout fact, r.perform timeout (some fact) =
        (performAll timeout r.name [.alert "before"] ⟨[], [], some fact⟩).whenOk fun report =>
          performAll timeout r.name [.alert "after"] (report.fail .update (.expression e)) := by
  intro d
  have compiles : ∃ r, d.compile = .ok r ∧ ∃ path source e, Expression.parse "1 +" = .error e ∧
      r.actions = [.alert "before", .update path source (.error e), .alert "after"] := by
    subst d
    exact ⟨_, rfl, _, _, _, rfl, rfl⟩
  obtain ⟨r, compiled, path, source, e, unreadable, actions⟩ := compiles
  obtain ⟨exactly, deferred⟩ := RuleDefinition.compiles_exactly d
  obtain ⟨as, path', bs, actions', length, -, fails⟩ :=
    deferred r compiled [.alert "before"] [.alert "after"] "n" "1 +" rfl
  rw [actions] at actions'
  obtain ⟨rfl, after⟩ := @List.append_inj Action [.alert "before"] _ _ _ actions' length.symm
  obtain ⟨-, rfl⟩ := List.cons.inj after
  exact ⟨r, e, exactly.mp ⟨r, compiled⟩, compiled, unreadable, fails e unreadable⟩

end Rulebook
