import Rulebook.Expression.Lexer
import Rulebook.Expression.Parser
import Rulebook.Fact

/-!
# `Rulebook.Expression.Evaluation` — expressions and their values

An expression is a source together with its tree. Integers stay integers under `+`, `-`, `*` and `%` and
never leave 64 bits; `/` always gives a float. Numbers are compared as floats. The result of an operator is
finite, or it is an error.

## Contents
* `Expression.parse` — the expression of a source
* `arithmetic`, `combine`, `negate` — the operators on scalars
* `Scalar.ofValue` — the value of a field
* `Tree.evaluate`, `Expression.evaluate`, `Expression.evaluateValue` — the value of an expression on a fact
-/

namespace Rulebook

/-! ## Expressions -/

/-- A source and its tree. -/
structure Expression where
  source : String
  tree : Expression.Tree
  deriving DecidableEq

namespace Expression

/-- The expression of a source. -/
def parse (source : String) : Except ExpressionError Expression :=
  match lex source with
  | .error span =>
    .error (.ofSpan source span (.unrecognised (String.ofList (span.of source.toList))))
  | .ok ls =>
    match parseTree source.toList.length ls with
    | .error e => .error (.ofSpan source e.span e.problem)
    | .ok tree => .ok ⟨source, tree⟩

/-- The paths in an expression, from left to right, as often as they occur. -/
def fields (e : Expression) : List Path := e.tree.fields

/-! ## Operators on scalars -/

/-- An integer that fits 64 bits, as a scalar. -/
def checked (n : Int) : Except Problem Scalar :=
  if IsInt64 n then .ok (.int (.ofInt n)) else .error .overflow

/-- The problem of an operator that its operands do not have. -/
def mismatch (op : BinaryOp) (a b : Scalar) : Problem := .unsupported op a.kindName b.kindName

/-- An operator on two numbers taken as floats. -/
def onFloats (op : BinaryOp) (a b : Scalar) (f : Binary64 → Binary64 → Except Problem Binary64) :
    Except Problem Scalar :=
  match a.toBinary64?, b.toBinary64? with
  | some x, some y => (f x y).map .float
  | _, _ => .error (mismatch op a b)

/-- An operation that has no result for a divisor of zero. -/
def nonzero (f : Binary64 → Binary64 → Binary64) (x y : Binary64) : Except Problem Binary64 :=
  if y.isZero then .error .divisionByZero else .ok (f x y)

/-- Whether two scalars are equal: numbers as floats, others when they are of one kind. -/
def equal (a b : Scalar) : Bool :=
  match a.toBinary64?, b.toBinary64? with
  | some x, some y => x.eq y
  | _, _ => a = b

/-- The place of `a` relative to `b`, which two strings or two numbers have. -/
def order? (a b : Scalar) : Option Ordering :=
  match a, b with
  | .string s, .string t => some (compare s t)
  | a, b =>
    match a.toBinary64?, b.toBinary64? with
    | some x, some y => x.compare? y
    | _, _ => none

/-- A comparison that asks for an order. -/
def ordered (op : BinaryOp) (a b : Scalar) (holds : Ordering → Bool) : Except Problem Scalar :=
  match order? a b with
  | some o => .ok (.bool (holds o))
  | none => .error (mismatch op a b)

/-- The result of an operator, which may still be a float that is not finite. -/
def arithmetic (op : BinaryOp) (a b : Scalar) : Except Problem Scalar :=
  match op, a, b with
  | .add, .int m, .int n => checked (m.toInt + n.toInt)
  | .add, .string s, .string t => .ok (.string (s ++ t))
  | .add, a, b => onFloats .add a b fun x y => .ok (x.add y)
  | .sub, .int m, .int n => checked (m.toInt - n.toInt)
  | .sub, a, b => onFloats .sub a b fun x y => .ok (x.sub y)
  | .mul, .int m, .int n => checked (m.toInt * n.toInt)
  | .mul, a, b => onFloats .mul a b fun x y => .ok (x.mul y)
  | .div, a, b => onFloats .div a b (nonzero Binary64.div)
  | .rem, .int m, .int n =>
    if n = 0 then .error .divisionByZero
    else if m = Int64.minValue ∧ n = -1 then .error .overflow
    else checked (m.toInt.tmod n.toInt)
  | .rem, a, b => onFloats .rem a b (nonzero Binary64.rem)
  | .eq, a, b => .ok (.bool (equal a b))
  | .ne, a, b => .ok (.bool !equal a b)
  | .lt, a, b => ordered .lt a b (· == .lt)
  | .gt, a, b => ordered .gt a b (· == .gt)
  | .le, a, b => ordered .le a b (· != .gt)
  | .ge, a, b => ordered .ge a b (· != .lt)

/-- The result of an operator. -/
def combine (op : BinaryOp) (a b : Scalar) : Except Problem Scalar := do
  match ← arithmetic op a b with
  | .float x => if x.isFinite then return .float x else throw .notFinite
  | v => return v

/-- The negation of a number. -/
def negate : Scalar → Except Problem Scalar
  | .int n => checked (-n.toInt)
  | .float x => .ok (.float x.neg)
  | v => .error (.cannotNegate v.kindName)

/-! ## Evaluation -/

/-- The scalar of a field: an integer when it fits 64 bits with a sign, and otherwise the nearest float. -/
def scalarOf : Value → Except Problem Scalar
  | .bool b => .ok (.bool b)
  | .string s => .ok (.string s)
  | .number (.int n h) =>
    if IsInt64 n then .ok (.int (.ofInt n)) else .ok (.float (Number.int n h).toBinary64)
  | .number (.float x) => .ok (.float (.finite x))
  | v => .error (.notScalar v.kindName)

/-- `result`, with the place of a problem in it. -/
def located (span : Span) (result : Except Problem Scalar) : Except LocatedProblem Scalar :=
  result.mapError fun p => ⟨p, span⟩

/-- The value of a tree on a fact. Operands are evaluated from left to right. -/
def Tree.evaluate (fact : Fact) : Tree → Except LocatedProblem Scalar
  | .literal v _ => .ok v
  | .field p span =>
    located span <| match fact.get p with
      | none => .error (.unknownField p)
      | some v => scalarOf v
  | .negation t span _ => do
    let v ← t.evaluate fact
    located span (negate v)
  | .binary op l r span _ => do
    let a ← l.evaluate fact
    let b ← r.evaluate fact
    located span (combine op a b)

/-- The value of an expression on a fact. -/
def evaluate (e : Expression) (fact : Fact) : Except ExpressionError Scalar :=
  (e.tree.evaluate fact).mapError fun err => .ofSpan e.source err.span err.problem

/-- The value of an expression as a JSON value, which must be finite. -/
def evaluateValue (e : Expression) (fact : Fact) : Except ExpressionError Value := do
  match (← e.evaluate fact).toValue? with
  | some v => return v
  | none => throw ⟨.notFinite, e.source⟩

end Expression

end Rulebook
