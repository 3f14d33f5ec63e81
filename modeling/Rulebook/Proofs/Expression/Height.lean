import Rulebook.Expression.Evaluation
import Rulebook.Proofs.Expression.Parsing

/-!
# `Rulebook.Proofs.Expression.Height` — how high a tree grows, and how deep its evaluation goes

The height of a tree is checked where an operator joins two operands and nowhere else. A minus sign makes a tree higher
without a check, so the limit on height alone does not bound the trees that are read. The limit on nesting does the
rest: minus signs one after another count as nesting, and so do the parentheses that an operator needs below them. Above
the highest operator there is room for 62 minus signs, which is two less than the limit on nesting, and an expression is
higher than the limit on height exactly when such signs carry it there.

* `Tree.signs`, `Tree.body` — the minus signs that a tree begins with, and what they negate
* `Spells.nesting_le` — minus signs, and the parentheses of an operator below them, count as nesting
* `Tree.evaluateWithin` — evaluation by as many calls inside one another as are allowed
* `evaluateWithin_of_height_le`, `height_le_of_evaluateWithin` — the height says how many calls are needed
* `parse_bounds_height` — **the height of an expression**, stored and true
-/

namespace Rulebook.Expression

/-! ## Heights -/

/-- An outline is as high as the tree. -/
theorem Tree.height_outline (t : Tree) : t.outline.height = t.height := by
  induction t with
  | literal v s => rfl
  | field p s => rfl
  | negation t s h ih => rw [outline, Outline.height, height, ih]
  | binary op l r s h ihl ihr => rw [outline, Outline.height, height, ihl, ihr]

/-- **The height that is stored is the height of the tree**, for whatever is spelled. -/
theorem Spells.storedHeight_eq {n : Nat} {p : Part} {ls : List Lexeme} {t : Tree} (h : Spells n p ls t) :
    t.storedHeight = t.height := by
  rw [h.shows.height, t.height_outline]

namespace Tree

/-- How many minus signs a tree begins with. -/
def signs : Tree → Nat
  | negation t _ _ => t.signs + 1
  | _ => 0

/-- What the minus signs of a tree negate. -/
def body : Tree → Tree
  | negation t _ _ => t.body
  | t => t

/-- A tree with an operator between two operands at its top. -/
def isOperator : Tree → Bool
  | binary .. => true
  | _ => false

/-- How much nesting a tree needs to be an operand: its minus signs, and parentheses if they negate an operator. -/
def nesting (t : Tree) : Nat := t.signs + if t.body.isOperator then 1 else 0

theorem height_eq (t : Tree) : t.height = t.signs + t.body.height := by
  induction t with
  | negation t s h ih =>
      rw [height, signs, body, ih]
      omega
  | _ => simp [signs, body]

/-- Minus signs that do not negate an operator negate a leaf. -/
theorem height_body_of_leaf (t : Tree) (h : t.body.isOperator = false) : t.body.height = 1 := by
  induction t with
  | negation t s k ih => exact ih h
  | binary op l r s k => cases h
  | _ => rfl

theorem signs_inSpan (t : Tree) (s : Span) : (t.inSpan s).signs = t.signs := by
  cases t <;> rfl

theorem isOperator_body_inSpan (t : Tree) (s : Span) : (t.inSpan s).body.isOperator = t.body.isOperator := by
  cases t <;> rfl

theorem nesting_inSpan (t : Tree) (s : Span) : (t.inSpan s).nesting = t.nesting := by
  rw [nesting, nesting, signs_inSpan, isOperator_body_inSpan]

/-- An operator is within the limit on height, whatever negates it. -/
theorem height_body_le {limit : Nat} {t : Tree} (low : t.outline.Low limit) (operator : t.body.isOperator = true) :
    t.body.height ≤ limit := by
  induction t with
  | negation t s h ih => exact ih low operator
  | binary op l r s h =>
      obtain ⟨-, -, height⟩ := low
      show (binary op l r s h).height ≤ limit
      rw [← height_outline]
      exact height
  | _ => cases operator

end Tree

/-! ## Nesting -/

/-- The parts of the grammar that an operand is read by. -/
def Part.isOperand : Part → Bool
  | primary | unary => true
  | chain _ | comparison => false

/-- **Minus signs count as nesting**, and so do the parentheses around an operator below them or around an operand. -/
theorem Spells.nesting_le {n : Nat} {p : Part} {ls : List Lexeme} {t : Tree} (h : Spells n p ls t)
    (inside : p.isOperand = true ∨ 0 < t.signs) : t.nesting ≤ n := by
  induction h with
  | literal v s => exact Nat.zero_le _
  | field p s => exact Nat.zero_le _
  | @parentheses n ls t s s' _ ih =>
      rw [Tree.nesting_inSpan]
      -- Without minus signs inside, the parentheses themselves are all the nesting there is.
      rcases Nat.eq_zero_or_pos t.signs with none | some
      · rw [Tree.nesting, none]
        split <;> omega
      · exact Nat.le_succ_of_le (ih (.inr some))
  | primary _ ih => exact ih (.inl rfl)
  | minus s _ ih =>
      have below := ih (.inl rfl)
      rw [Tree.nesting] at below ⊢
      show _ + 1 + _ ≤ _
      rw [Nat.add_right_comm]
      exact Nat.succ_le_succ below
  | single _ ih => exact ih (inside.imp_left nofun)
  | chain => exact inside.elim nofun nofun
  | sum _ ih => exact ih (inside.imp_left nofun)
  | comparison => exact inside.elim nofun nofun

/-! ## Depth of evaluation -/

/-- Evaluation by at most as many calls inside one another as the number says, one for each tree on the way down. Nothing
    where they do not suffice. -/
def Tree.evaluateWithin (fact : Fact) : Nat → Tree → Option (Except LocatedProblem Scalar)
  | 0, _ => none
  | _ + 1, literal v span => some ((literal v span).evaluate fact)
  | _ + 1, field p span => some ((field p span).evaluate fact)
  | calls + 1, negation t span _ =>
    (t.evaluateWithin fact calls).map fun inner => do
      let v ← inner
      located span (negate v)
  | calls + 1, binary op l r span _ =>
    (l.evaluateWithin fact calls).bind fun
      | .error problem => some (.error problem)
      | .ok a => (r.evaluateWithin fact calls).map fun right => do
        let b ← right
        located span (combine op a b)

/-- **As many calls as a tree is high** always suffice. -/
theorem Tree.evaluateWithin_of_height_le {t : Tree} {calls : Nat} (enough : t.height ≤ calls) (fact : Fact) :
    t.evaluateWithin fact calls = some (t.evaluate fact) := by
  induction t generalizing calls with
  | literal v span =>
      obtain ⟨calls, rfl⟩ := Nat.exists_eq_add_of_le' enough
      rfl
  | field p span =>
      obtain ⟨calls, rfl⟩ := Nat.exists_eq_add_of_le' enough
      rfl
  | negation t span height ih =>
      obtain ⟨calls, rfl⟩ := Nat.exists_eq_add_of_le' (Nat.le_trans (Nat.le_add_left 1 t.height) enough)
      rw [evaluateWithin, ih (Nat.le_of_succ_le_succ enough)]
      rfl
  | binary op l r span height ihl ihr =>
      obtain ⟨calls, rfl⟩ := Nat.exists_eq_add_of_le' (Nat.le_trans (Nat.le_add_left 1 (max l.height r.height)) enough)
      have operands : max l.height r.height ≤ calls := Nat.le_of_succ_le_succ enough
      rw [evaluateWithin, ihl (Nat.le_trans (Nat.le_max_left _ _) operands),
        ihr (Nat.le_trans (Nat.le_max_right _ _) operands), evaluate]
      cases l.evaluate fact <;> rfl

/-- A tree that has a value needs as many calls as it is high. -/
theorem Tree.height_le_of_evaluateWithin {t : Tree} {calls : Nat} {fact : Fact} {v : Scalar}
    (within : t.evaluateWithin fact calls = some (.ok v)) : t.height ≤ calls := by
  induction t generalizing calls v with
  | literal w span =>
      cases calls with
      | zero => cases within
      | succ calls => exact Nat.le_add_left 1 calls
  | field p span =>
      cases calls with
      | zero => cases within
      | succ calls => exact Nat.le_add_left 1 calls
  | negation t span height ih =>
      cases calls with
      | zero => cases within
      | succ calls =>
          rw [evaluateWithin, Option.map_eq_some_iff] at within
          obtain ⟨inner, below, value⟩ := within
          obtain ⟨a, rfl, -⟩ := bind_eq_ok.mp value
          exact Nat.succ_le_succ (ih below)
  | binary op l r span height ihl ihr =>
      cases calls with
      | zero => cases within
      | succ calls =>
          rw [evaluateWithin, Option.bind_eq_some_iff] at within
          obtain ⟨left, below, follows⟩ := within
          cases left with
          | error problem => cases follows
          | ok a =>
              obtain ⟨right, below', value⟩ := Option.map_eq_some_iff.mp follows
              obtain ⟨b, rfl, -⟩ := bind_eq_ok.mp value
              exact Nat.succ_le_succ (Nat.max_le.mpr ⟨ihl below, ihr below'⟩)

/-! ## Expressions -/

/-- **Minus signs carry a tree above the limit on height**: what they negate has an operator at its top, and is within
    the limit without them only. -/
def Tree.Overgrown (t : Tree) : Prop :=
  0 < t.signs ∧ t.body.isOperator = true ∧ maxHeight < t.signs + t.body.height

instance (t : Tree) : Decidable t.Overgrown := by unfold Tree.Overgrown; infer_instance

/-- Above an operator there is room for two minus signs less than nesting may have levels, and without minus signs a tree
    is within the limit on height. -/
theorem Spells.height_cases {ls : List Lexeme} {t : Tree} (h : Spells 63 .comparison ls t) :
    (t.body.isOperator = false ∧ t.signs ≤ 63 ∧ t.body.height = 1) ∨
    (t.body.isOperator = true ∧ t.signs ≤ 62 ∧ t.body.height ≤ maxHeight) := by
  have nested : 0 < t.signs → t.nesting ≤ 63 := fun some => h.nesting_le (.inr some)
  rw [Tree.nesting] at nested
  cases operator : t.body.isOperator with
  | false =>
      simp only [operator, Bool.false_eq_true, if_false] at nested
      exact .inl ⟨rfl, by omega, t.height_body_of_leaf operator⟩
  | true =>
      simp only [operator, if_true] at nested
      exact .inr ⟨rfl, by omega, Tree.height_body_le h.low operator⟩

/-- **The height of an expression.** Whatever source an expression was read from, the height that its tree stores is the
    true one. It is within the limit unless minus signs carry an operator above it, and beyond the limit by 62 at most.
    Evaluation never makes more calls inside one another than that, and if no minus signs carry an operator above the
    limit, never more than the limit. -/
theorem parse_bounds_height {source : String} {e : Expression} (parsed : Expression.parse source = .ok e) :
    e.tree.storedHeight = e.tree.height ∧
    (e.tree.height ≤ maxHeight ↔ ¬ e.tree.Overgrown) ∧
    e.tree.height ≤ maxHeight + 62 ∧
    ∀ fact, e.tree.evaluateWithin fact (maxHeight + 62) = some (e.tree.evaluate fact) ∧
      (¬ e.tree.Overgrown → e.tree.evaluateWithin fact maxHeight = some (e.tree.evaluate fact)) := by
  obtain ⟨ls, -, spelled, -⟩ := spells_of_parse parsed
  have height := e.tree.height_eq
  have room : (62 : Nat) + 2 ≤ maxHeight := by decide
  have within : e.tree.height ≤ maxHeight ↔ ¬ e.tree.Overgrown := by
    rw [Tree.Overgrown]
    rcases spelled.height_cases with ⟨leaf, signs, one⟩ | ⟨operator, signs, low⟩
    · -- A leaf is far below the limit with all the minus signs that there can be.
      exact iff_of_true (by omega) fun grown => Bool.false_ne_true (leaf.symm.trans grown.2.1)
    · simp only [operator, true_and, height]
      omega
  have bound : e.tree.height ≤ maxHeight + 62 := by
    rcases spelled.height_cases with ⟨-, signs, one⟩ | ⟨-, signs, low⟩ <;> omega
  exact ⟨spelled.storedHeight_eq, within, bound, fun fact => ⟨Tree.evaluateWithin_of_height_le bound fact,
    fun usual => Tree.evaluateWithin_of_height_le (within.mpr usual) fact⟩⟩

/-- Two minus signs before parentheses are two levels of the tree, and the parentheses none. -/
theorem parse_bounds_height_signs :
    ∃ e, Expression.parse "--(a + 1)" = .ok e ∧ e.tree.storedHeight = 4 ∧ e.tree.signs = 2 ∧
      e.tree.storedHeight = e.tree.height ∧ (e.tree.height ≤ maxHeight ↔ ¬ e.tree.Overgrown) ∧
      e.tree.height ≤ maxHeight + 62 ∧
      ∀ fact, e.tree.evaluateWithin fact (maxHeight + 62) = some (e.tree.evaluate fact) ∧
        (¬ e.tree.Overgrown → e.tree.evaluateWithin fact maxHeight = some (e.tree.evaluate fact)) := by
  have read : ∃ e, Expression.parse "--(a + 1)" = .ok e ∧ e.tree.storedHeight = 4 ∧ e.tree.signs = 2 :=
    ⟨_, rfl, rfl, rfl⟩
  obtain ⟨e, parsed, height, signs⟩ := read
  exact ⟨e, parsed, height, signs, parse_bounds_height parsed⟩

/-- A minus sign before a sum in parentheses that is as high as the limit allows, character by character. -/
def negatedSum : List Char :=
  '-' :: '(' :: '1' :: ((List.replicate 255 ['+', '1']).flatten ++ [')'])

/-- **A minus sign carries a tree above the limit on height**: the expression is read, its tree is one level higher than the
    limit, and the calls that the limit allows do not suffice to evaluate it. -/
theorem height_beyond_limit :
    ∃ e, Expression.parse (String.ofList negatedSum) = .ok e ∧ e.tree.storedHeight = 257 ∧ e.tree.height = 257 ∧
      maxHeight = 256 ∧ e.tree.evaluateWithin ⟨0, none, []⟩ maxHeight = none ∧
      e.evaluate ⟨0, none, []⟩ = .ok (.int (-256)) := by
  let fact : Fact := ⟨0, none, []⟩
  have computed : ((lexFrom 0 0 negatedSum).toOption.bind fun ls => (parseTree negatedSum.length ls).toOption.map fun t =>
      (t.storedHeight, t.height, (t.evaluateWithin fact maxHeight).isNone, (t.evaluate fact).toOption)) =
        some (257, 257, true, some (.int (-256))) := by
    decide +kernel
  obtain ⟨ls, lexed, computed⟩ := Option.bind_eq_some_iff.mp computed
  obtain ⟨t, read, computed⟩ := Option.map_eq_some_iff.mp computed
  rw [toOption_eq_some_iff] at lexed read
  simp only [Prod.mk.injEq, Option.isNone_iff_eq_none, toOption_eq_some_iff] at computed
  obtain ⟨stored, height, within, value⟩ := computed
  refine ⟨⟨String.ofList negatedSum, t⟩, ?_, stored, height, rfl, within, ?_⟩
  · rw [← String.toList_ofList (l := negatedSum)] at lexed read
    exact parse_of_parseTree lexed read
  · rw [evaluate, value]
    rfl

end Rulebook.Expression
