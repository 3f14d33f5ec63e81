import Rulebook.Execution
import Rulebook.Proofs.Rule.Meaning

/-!
# `Rulebook.Proofs.Reading` — what is read of a fact

Conditions, expressions and messages look at a fact by its paths and in no other way. A condition and an expression name
the paths that they read, so two facts with the same values at these paths are the same for them; the paths in a message
are not known before it is made, so there the facts must have the same values everywhere.

* `Tree.evaluate_congr`, `Expression.evaluateValue_congr` — expressions
* `Predicate.holds_congr` — conditions
* `Template.render_congr` — messages
-/

namespace Rulebook

variable {f g : Fact}

/-! ## Expressions -/

namespace Expression

/-- The value of a tree depends on the values of its fields, and so does what is wrong in it. -/
theorem Tree.evaluate_congr {t : Tree} (same : ∀ p ∈ t.fields, f.get p = g.get p) : t.evaluate f = t.evaluate g := by
  induction t with
  | literal v span => rfl
  | field p span =>
      have here : f.get p = g.get p := same p List.mem_cons_self
      rw [Tree.evaluate, Tree.evaluate, here]
  | negation t span height ih =>
      have inner : t.evaluate f = t.evaluate g := ih same
      rw [Tree.evaluate, Tree.evaluate, inner]
  | binary op l r span height ihl ihr =>
      obtain ⟨onLeft, onRight⟩ := List.forall_mem_append.mp same
      rw [Tree.evaluate, Tree.evaluate, ihl onLeft, ihr onRight]

theorem evaluate_congr {e : Expression} (same : ∀ p ∈ e.fields, f.get p = g.get p) : e.evaluate f = e.evaluate g := by
  have tree : e.tree.evaluate f = e.tree.evaluate g := Tree.evaluate_congr same
  rw [evaluate, evaluate, tree]

theorem evaluateValue_congr {e : Expression} (same : ∀ p ∈ e.fields, f.get p = g.get p) :
    e.evaluateValue f = e.evaluateValue g := by
  rw [evaluateValue, evaluateValue, evaluate_congr same]

end Expression

/-! ## Conditions -/

namespace Predicate

/-- Induction on checked conditions: a group has what all of its members have. -/
@[elab_as_elim, induction_eliminator]
theorem induct {motive : Predicate → Prop} (test : ∀ field op operand, motive (.test field op operand))
    (group : ∀ how members, (∀ c ∈ members, motive c) → motive (.group how members)) : ∀ c, motive c
  | .test field op operand => test field op operand
  | .group how members => group how members fun c _ => induct test group c

/-- The paths that conditions read are those of the single ones. -/
theorem mem_pathsOfAll {cs : List Predicate} {p : Path} : p ∈ pathsOfAll cs ↔ ∃ c ∈ cs, p ∈ c.paths := by
  induction cs with
  | nil => simp [pathsOfAll]
  | cons c cs ih => rw [pathsOfAll, List.mem_append, ih, List.exists_mem_cons_iff]

/-- Whether a condition holds depends on the values at the paths that it reads. -/
theorem holds_congr {c : Predicate} (same : ∀ p ∈ c.paths, f.get p = g.get p) : c.holds f = c.holds g := by
  induction c with
  | test field op operand =>
      cases operand with
      | literal v =>
          have left : f.get field = g.get field := same field List.mem_cons_self
          rw [holds, holds, left]
          rfl
      | field p =>
          have left : f.get field = g.get field := same field List.mem_cons_self
          have right : f.get p = g.get p := same p (List.mem_cons_of_mem field List.mem_cons_self)
          rw [holds, holds, left, Operand.value?, Operand.value?, right]
  | group how members ih =>
      have each : ∀ c ∈ members, c.holds f = c.holds g :=
        fun c hc => ih c hc fun p hp => same p (mem_pathsOfAll.mpr ⟨c, hc, hp⟩)
      rw [Bool.eq_iff_iff]
      cases how with
      | all =>
          rw [holds, holds, allHold_iff, allHold_iff]
          exact forall₂_congr fun c hc => by rw [each c hc]
      | any =>
          rw [holds, holds, anyHolds_iff, anyHolds_iff]
          exact exists_congr fun c => and_congr_right fun hc => by rw [each c hc]

end Predicate

/-! ## Messages -/

namespace Template

/-- A message depends on the values of the fact. -/
theorem render_congr (same : ∀ p, f.get p = g.get p) (template : String) :
    render template (some f) = render template (some g) := by
  have found : ∀ name, replacement f name = replacement g name := by
    intro name
    simp only [replacement, same]
  have everywhere : ∀ skip cs, renderFrom f skip cs = renderFrom g skip cs := by
    intro skip cs
    induction cs generalizing skip with
    | nil => rfl
    | cons c cs ih => simp only [renderFrom, found, ih]
  rw [render, render, everywhere]

end Template

end Rulebook
