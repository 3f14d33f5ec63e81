import Rulebook.Expression.Evaluation
import Rulebook.Proofs.Except

/-!
# `Rulebook.Proofs.Expression.Integers` — arithmetic on integers

An expression of integer literals and integer fields under `-`, `+`, `*` and `%` has a mathematical value, unless a
divisor is zero. Evaluation works with 64 bits and checks every step. A step that leaves the 64 bits is an error, and so
are a remainder by zero and the one remainder whose quotient leaves them, that of the smallest integer by `-1`, which in
mathematics is zero. So evaluation gives the mathematical value, or it stops at the first part that has none within 64
bits. It does not wrap around, and it does not go on with floats.

* `Tree.OfIntegers`, `Tree.value?` — trees of integers and their mathematical values
* `Tree.parts`, `Tree.Fits`, `Tree.misfit` — the parts in the order of evaluation, and what is wrong with one
* `settles_checked`, `settles_combine`, `settles_negate` — one step gives the mathematical value or the problem
* `OfIntegers.exact` — all steps, by induction on the tree
* `evaluates_exactly` — **arithmetic on integers is exact or an error**
-/

namespace Rulebook

/-! ## Mathematical values -/

/-- The integer in a JSON value. -/
def Value.toInt? : Value → Option Int
  | number n => n.toInt?
  | _ => none

namespace Expression

namespace BinaryOp

/-- The operators that give an integer for two integers. -/
def isIntegral : BinaryOp → Bool
  | add | sub | mul | rem => true
  | _ => false

/-- The mathematical result of such an operator. A remainder has the sign of the dividend, and there is none by zero. -/
def value? : BinaryOp → Int → Int → Option Int
  | add, m, n => some (m + n)
  | sub, m, n => some (m - n)
  | mul, m, n => some (m * n)
  | rem, m, n => if n = 0 then none else some (m.tmod n)
  | _, _, _ => none

end BinaryOp

namespace Tree

/-- A tree of integers on a fact: integers as literals, fields that hold integers of 64 bits with a sign, and minus signs
    and operators that keep to integers. -/
def OfIntegers (fact : Fact) : Tree → Prop
  | literal v _ => ∃ n, v = .int n
  | field p _ => ∃ n ∈ (fact.get p).bind Value.toInt?, IsInt64 n
  | negation t _ _ => t.OfIntegers fact
  | binary op l r _ _ => op.isIntegral = true ∧ l.OfIntegers fact ∧ r.OfIntegers fact

/-- Whether a tree is one of integers can be computed. -/
instance decidableOfIntegers (fact : Fact) : (t : Tree) → Decidable (t.OfIntegers fact)
  | literal (.int n) _ => .isTrue ⟨n, rfl⟩
  | literal (.float _) _ | literal (.string _) _ | literal (.bool _) _ => .isFalse nofun
  | field p _ => inferInstanceAs (Decidable (∃ n ∈ (fact.get p).bind Value.toInt?, IsInt64 n))
  | negation t _ _ => decidableOfIntegers fact t
  | binary op l r _ _ =>
    have := decidableOfIntegers fact l
    have := decidableOfIntegers fact r
    inferInstanceAs (Decidable (op.isIntegral = true ∧ l.OfIntegers fact ∧ r.OfIntegers fact))

/-- The mathematical value of a tree of integers. There is none when a divisor is zero. -/
def value? (fact : Fact) : Tree → Option Int
  | literal v _ => v.toValue?.bind Value.toInt?
  | field p _ => (fact.get p).bind Value.toInt?
  | negation t _ _ => (t.value? fact).map fun n => -n
  | binary op l r _ _ => (l.value? fact).bind fun m => (r.value? fact).bind fun n => op.value? m n

/-- The trees in a tree, in the order in which they get their values: operands first, the left one before the right. -/
def parts : Tree → List Tree
  | literal v s => [literal v s]
  | field p s => [field p s]
  | negation t s h => t.parts ++ [negation t s h]
  | binary op l r s h => l.parts ++ r.parts ++ [binary op l r s h]

/-- Whether a tree is the remainder of the smallest integer of 64 bits by `-1`, whose quotient is too large for them. -/
def quotientOverflows (fact : Fact) : Tree → Bool
  | binary .rem l r _ _ => l.value? fact = some Int64.minValue.toInt && r.value? fact = some (-1)
  | _ => false

/-- A tree has a value within 64 bits: a mathematical value that fits them, and no quotient on the way that does not. -/
def Fits (fact : Fact) (t : Tree) : Prop :=
  (∃ n ∈ t.value? fact, IsInt64 n) ∧ t.quotientOverflows fact = false

instance (fact : Fact) (t : Tree) : Decidable (t.Fits fact) := by unfold Fits; infer_instance

/-- What is wrong with a tree that has no value within 64 bits although its operands do. -/
def misfit (fact : Fact) : Tree → Problem
  | binary .rem _ r _ _ => if r.value? fact = some 0 then .divisionByZero else .overflow
  | _ => .overflow

end Tree

/-! ## Steps -/

/-- A step of evaluation as it should be: it gives the mathematical value of the tree if this is within 64 bits, and the
    problem of the tree if it is not. -/
def Tree.Settles (fact : Fact) (t : Tree) (step : Except Problem Scalar) : Prop :=
  (t.Fits fact ∧ ∃ n : Int64, t.value? fact = some n.toInt ∧ step = .ok (.int n)) ∨
  (¬ t.Fits fact ∧ step = .error (t.misfit fact))

/-- **A check settles a tree** that overflows exactly when its mathematical value is too large. -/
theorem Tree.settles_checked {fact : Fact} {t : Tree} {k : Int} (value : t.value? fact = some k)
    (usual : t.quotientOverflows fact = false) (problem : t.misfit fact = .overflow) : t.Settles fact (checked k) := by
  have fits_iff : t.Fits fact ↔ IsInt64 k := by simp [Fits, value, usual]
  rw [checked]
  by_cases fits : IsInt64 k
  · exact .inl ⟨fits_iff.mpr fits, .ofInt k, by rw [value, fits.toInt_ofInt], if_pos fits⟩
  · refine .inr ⟨mt fits_iff.mp fits, ?_⟩
    rw [if_neg fits, problem]

theorem combine_of_checked {op : BinaryOp} {a b : Scalar} {k : Int} (h : arithmetic op a b = checked k) :
    combine op a b = checked k := by
  rw [combine, h, checked]
  split
  · rfl
  · rfl

theorem combine_of_error {op : BinaryOp} {a b : Scalar} {p : Problem} (h : arithmetic op a b = .error p) :
    combine op a b = .error p := by
  rw [combine, h]
  rfl

/-- **A remainder of two integers settles its tree.** The check for zero comes before the one for the quotient. -/
theorem Tree.settles_remainder {fact : Fact} {l r : Tree} {m n : Int64} (left : l.value? fact = some m.toInt)
    (right : r.value? fact = some n.toInt) (span : Span) (height : Nat) :
    (binary .rem l r span height).Settles fact (combine .rem (.int m) (.int n)) := by
  have zero_iff : n.toInt = 0 ↔ n = 0 := by rw [← Int64.toInt_zero, Int64.toInt_inj]
  have minus_iff : n.toInt = -1 ↔ n = -1 := Int64.toInt_inj (x := n) (y := -1)
  have value : (binary .rem l r span height).value? fact = BinaryOp.value? .rem m.toInt n.toInt := by
    rw [value?, left, right]
    rfl
  have quotient : (binary .rem l r span height).quotientOverflows fact = true ↔ m = Int64.minValue ∧ n = -1 := by
    simp only [quotientOverflows, left, right, Option.some.injEq, Bool.and_eq_true, decide_eq_true_eq, Int64.toInt_inj,
      minus_iff]
  have problem : (binary .rem l r span height).misfit fact = if n = 0 then .divisionByZero else .overflow := by
    simp [misfit, right, zero_iff]
  rw [BinaryOp.value?] at value
  by_cases zero : n = 0
  · refine .inr ⟨?_, ?_⟩
    · rintro ⟨⟨k, value', -⟩, -⟩
      rw [value, if_pos (zero_iff.mpr zero)] at value'
      cases value'
    · rw [problem, if_pos zero]
      exact combine_of_error (by rw [arithmetic, if_pos zero])
  · rw [if_neg (mt zero_iff.mp zero)] at value
    rw [if_neg zero] at problem
    by_cases overflows : m = Int64.minValue ∧ n = -1
    · refine .inr ⟨fun fits => ?_, ?_⟩
      · rw [Fits, quotient.mpr overflows] at fits
        exact Bool.noConfusion fits.2
      · rw [problem]
        exact combine_of_error (by rw [arithmetic, if_neg zero, if_pos overflows])
    · rw [combine_of_checked (by rw [arithmetic, if_neg zero, if_neg overflows])]
      exact settles_checked value (Bool.eq_false_iff.mpr (mt quotient.mp overflows)) problem

/-- **An operator on two integers settles its tree.** -/
theorem Tree.settles_combine {fact : Fact} {op : BinaryOp} {l r : Tree} {m n : Int64} (integral : op.isIntegral = true)
    (left : l.value? fact = some m.toInt) (right : r.value? fact = some n.toInt) (span : Span) (height : Nat) :
    (binary op l r span height).Settles fact (combine op (.int m) (.int n)) := by
  have value : (binary op l r span height).value? fact = op.value? m.toInt n.toInt := by
    rw [value?, left, right]
    rfl
  cases op with
  | add =>
      rw [combine_of_checked rfl]
      exact settles_checked value rfl rfl
  | sub =>
      rw [combine_of_checked rfl]
      exact settles_checked value rfl rfl
  | mul =>
      rw [combine_of_checked rfl]
      exact settles_checked value rfl rfl
  | rem => exact settles_remainder left right span height
  | _ => cases integral

/-- **A minus sign before an integer settles its tree.** -/
theorem Tree.settles_negate {fact : Fact} {t : Tree} {n : Int64} (inner : t.value? fact = some n.toInt) (span : Span)
    (height : Nat) : (negation t span height).Settles fact (negate (.int n)) := by
  have value : (negation t span height).value? fact = some (-n.toInt) := by
    rw [value?, inner]
    rfl
  exact settles_checked value rfl rfl

/-! ## Trees -/

/-- What evaluation of a tree comes to: the mathematical value, if all parts have a value within 64 bits, and otherwise
    the problem of the first part that has none. -/
def Tree.Exact (fact : Fact) (t : Tree) : Prop :=
  ((∀ s ∈ t.parts, s.Fits fact) ∧ ∃ n : Int64, t.value? fact = some n.toInt ∧ t.evaluate fact = .ok (.int n)) ∨
  ∃ before s after, t.parts = before ++ s :: after ∧ (∀ p ∈ before, p.Fits fact) ∧ ¬ s.Fits fact ∧
    t.evaluate fact = .error ⟨s.misfit fact, s.span⟩

/-- The last step of a tree, after all its operands. -/
theorem Tree.Settles.exact {fact : Fact} {t : Tree} {operands : List Tree} {step : Except Problem Scalar}
    (settles : t.Settles fact step) (parts : t.parts = operands ++ [t]) (fit : ∀ s ∈ operands, s.Fits fact)
    (evaluates : t.evaluate fact = located t.span step) : t.Exact fact := by
  rcases settles with ⟨fits, n, value, rfl⟩ | ⟨misfits, rfl⟩
  · refine .inl ⟨?_, n, value, evaluates⟩
    rw [parts]
    intro s part
    rcases List.mem_append.mp part with operand | last
    · exact fit s operand
    · cases List.mem_singleton.mp last
      exact fits
  · exact .inr ⟨operands, t, [], parts, fit, misfits, evaluates⟩

/-- An integer of 64 bits is settled as it is. -/
theorem Tree.settles_int {fact : Fact} {t : Tree} {n : Int64} (value : t.value? fact = some n.toInt)
    (usual : t.quotientOverflows fact = false) : t.Settles fact (.ok (.int n)) :=
  .inl ⟨⟨⟨n.toInt, value, isInt64_toInt n⟩, usual⟩, n, value, rfl⟩

/-- A field with an integer of 64 bits is read as that integer. -/
theorem scalarOf_of_toInt? {v : Value} {n : Int} (integer : v.toInt? = some n) (fits : IsInt64 n) :
    scalarOf v = .ok (.int (.ofInt n)) := by
  cases v with
  | number k =>
      cases k with
      | int k isWord =>
          cases integer
          rw [scalarOf, if_pos fits]
      | float x => cases integer
  | _ => cases integer

/-- **Trees of integers are evaluated exactly**, or to the problem of the first part that has no value within 64 bits. -/
theorem Tree.OfIntegers.exact {fact : Fact} {t : Tree} (integers : t.OfIntegers fact) : t.Exact fact := by
  induction t with
  | literal v span =>
      obtain ⟨n, rfl⟩ := integers
      exact (settles_int (n := n) rfl rfl).exact (List.nil_append _).symm nofun rfl
  | field p span =>
      obtain ⟨k, value, fits⟩ := integers
      obtain ⟨v, found, integer⟩ := Option.bind_eq_some_iff.mp value
      have settled : (field p span).Settles fact (.ok (.int (.ofInt k))) :=
        settles_int (by rw [value?, value, fits.toInt_ofInt]) rfl
      refine settled.exact (List.nil_append _).symm nofun ?_
      rw [evaluate, found, ← scalarOf_of_toInt? integer fits]
      rfl
  | negation t span height ih =>
      rcases ih integers with ⟨fit, n, value, evaluated⟩ | ⟨before, s, after, parts, fit, misfits, failed⟩
      · refine (settles_negate value span height).exact rfl fit ?_
        rw [evaluate, evaluated]
        rfl
      · refine .inr ⟨before, s, after ++ [negation t span height], ?_, fit, misfits, ?_⟩
        · rw [Tree.parts, parts, List.append_assoc, List.cons_append]
        · rw [evaluate, failed]
          rfl
  | binary op l r span height ihl ihr =>
      obtain ⟨integral, left, right⟩ := integers
      rcases ihl left with ⟨fitl, m, value, evaluated⟩ | ⟨before, s, after, parts, fit, misfits, failed⟩
      · rcases ihr right with ⟨fitr, n, value', evaluated'⟩ | ⟨before, s, after, parts, fit, misfits, failed⟩
        · refine (settles_combine integral value value' span height).exact rfl ?_ ?_
          · exact fun s part => (List.mem_append.mp part).elim (fitl s) (fitr s)
          · rw [evaluate, evaluated, evaluated']
            rfl
        · refine .inr ⟨l.parts ++ before, s, after ++ [binary op l r span height], ?_, ?_, misfits, ?_⟩
          · simp only [Tree.parts, parts, List.append_assoc, List.cons_append]
          · exact fun s part => (List.mem_append.mp part).elim (fitl s) (fit s)
          · rw [evaluate, evaluated, failed]
            rfl
      · refine .inr ⟨before, s, after ++ r.parts ++ [binary op l r span height], ?_, fit, misfits, ?_⟩
        · simp only [Tree.parts, parts, List.append_assoc, List.cons_append]
        · rw [evaluate, failed]
          rfl

/-! ## Expressions -/

/-- **Arithmetic on integers is exact or an error.** Let an expression be built from integer literals, fields that hold
    integers of 64 bits on a fact, minus signs, `+`, `-`, `*`, `%` and parentheses. If every part of it has a mathematical
    value within 64 bits, no divisor being zero and no remainder being that of the smallest integer by `-1`, then it
    evaluates to the integer that is its mathematical value. Otherwise it evaluates to an error, which is the problem of
    the first part, in the order of evaluation, for which this is not so. Whenever it has a value, that is an integer and
    no float, and the mathematical value. -/
theorem evaluates_exactly {e : Expression} {fact : Fact} (integers : e.tree.OfIntegers fact) :
    ((∀ s ∈ e.tree.parts, s.Fits fact) →
      ∃ n : Int64, e.tree.value? fact = some n.toInt ∧ e.evaluate fact = .ok (.int n)) ∧
    ((∃ s ∈ e.tree.parts, ¬ s.Fits fact) →
      ∃ before s after, e.tree.parts = before ++ s :: after ∧ (∀ p ∈ before, p.Fits fact) ∧ ¬ s.Fits fact ∧
        e.evaluate fact = .error (.ofSpan e.source s.span (s.misfit fact))) ∧
    ∀ v, e.evaluate fact = .ok v → ∃ n : Int64, v = .int n ∧ e.tree.value? fact = some n.toInt := by
  rcases integers.exact with ⟨fit, n, value, evaluated⟩ | ⟨before, s, after, parts, fit, misfits, failed⟩
  · have evaluates : e.evaluate fact = .ok (.int n) := by
      rw [evaluate, evaluated]
      rfl
    refine ⟨fun _ => ⟨n, value, evaluates⟩, fun ⟨s, part, misfits⟩ => absurd (fit s part) misfits, ?_⟩
    intro v evaluates'
    rw [evaluates] at evaluates'
    cases evaluates'
    exact ⟨n, rfl, value⟩
  · have fails : e.evaluate fact = .error (.ofSpan e.source s.span (s.misfit fact)) := by
      rw [evaluate, failed]
      rfl
    have part : s ∈ e.tree.parts := parts ▸ List.mem_append_right before List.mem_cons_self
    refine ⟨fun fits => absurd (fits s part) misfits, fun _ => ⟨before, s, after, parts, fit, misfits, fails⟩, ?_⟩
    intro v evaluates
    rw [fails] at evaluates
    cases evaluates

/-- At the smallest integer: the one after it can be negated, and a remainder by `-1` is an error, although the value of the
    whole expression is a small one. -/
theorem evaluates_exactly_smallest :
    let fact : Fact :=
      ⟨0, none, [("x", .number (.int (-0x8000000000000000) (by decide))), ("y", .number (.int (-1) (by decide)))]⟩
    (∃ e, Expression.parse "-(x + 1) % 10 - y" = .ok e ∧ e.tree.OfIntegers fact ∧ (∀ s ∈ e.tree.parts, s.Fits fact) ∧
      e.evaluate fact = .ok (.int 8)) ∧
    ∃ e, Expression.parse "1 + x % y" = .ok e ∧ e.tree.OfIntegers fact ∧ e.tree.value? fact = some 1 ∧
      e.evaluate fact = .error ⟨.overflow, "x % y"⟩ ∧
      ∃ before s after, e.tree.parts = before ++ s :: after ∧ (∀ p ∈ before, p.Fits fact) ∧ ¬ s.Fits fact ∧
        e.evaluate fact = .error (.ofSpan e.source s.span (s.misfit fact)) := by
  intro fact
  constructor
  · have read : ∃ e, Expression.parse "-(x + 1) % 10 - y" = .ok e ∧ e.tree.OfIntegers fact ∧
        (∀ s ∈ e.tree.parts, s.Fits fact) ∧ e.tree.value? fact = some 8 := by
      subst fact
      exact ⟨_, rfl, by decide +kernel, by decide +kernel, by decide +kernel⟩
    obtain ⟨e, parsed, integers, fit, value⟩ := read
    obtain ⟨n, value', evaluated⟩ := (evaluates_exactly integers).1 fit
    have eight : n = 8 := Int64.toInt_inj.mp (Option.some.inj (value'.symm.trans value))
    exact ⟨e, parsed, integers, fit, eight ▸ evaluated⟩
  · have read : ∃ e, Expression.parse "1 + x % y" = .ok e ∧ e.tree.OfIntegers fact ∧ e.tree.value? fact = some 1 ∧
        (∃ s ∈ e.tree.parts, ¬ s.Fits fact) ∧ e.evaluate fact = .error ⟨.overflow, "x % y"⟩ := by
      subst fact
      exact ⟨_, rfl, by decide +kernel, by decide +kernel, by decide +kernel, rfl⟩
    obtain ⟨e, parsed, integers, value, misfits, failed⟩ := read
    exact ⟨e, parsed, integers, value, failed, (evaluates_exactly integers).2.1 misfits⟩

end Expression

end Rulebook
