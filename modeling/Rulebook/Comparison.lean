import Rulebook.Text.Blank
import Rulebook.Value.Basic

/-!
# `Rulebook.Comparison` — the six operators of conditions

A condition compares two operands, each a value or absent. Integers are compared exactly and all other
numbers as floats, strings by their characters; other values are equal or not, but in no order. With an
absent operand only `!=` holds.

## Contents
* `Operator`, `Operator.parse`, `Operator.symbol` — the operators and their texts
* `Number.order`, `Value.order?`, `Value.equals` — order and equality of values
* `Operator.holds` — the comparison
-/

namespace Rulebook

/-! ## Operators -/

/-- An operator of a condition. -/
inductive Operator where
  | eq
  | ne
  | lt
  | gt
  | le
  | ge
  deriving DecidableEq

namespace Operator

/-- The operators, each once. -/
def all : List Operator := [eq, ne, lt, gt, le, ge]

/-- The text of an operator. -/
def symbol : Operator → String
  | eq => "=="
  | ne => "!="
  | lt => "<"
  | gt => ">"
  | le => "<="
  | ge => ">="

/-- The operator that a text stands for, blanks around it apart. -/
def parse (s : String) : Option Operator := all.find? fun op => op.symbol == Text.trim s

end Operator

/-! ## Order and equality -/

/-- The place of `m` relative to `n`: exact for two integers, and as floats otherwise. -/
def Number.order (m n : Number) : Option Ordering :=
  match m.toInt?, n.toInt? with
  | some i, some j => some (compare i j)
  | _, _ => m.toBinary64.compare? n.toBinary64

namespace Value

/-- The place of `v` relative to `w`, which only numbers and strings have. -/
def order? : Value → Value → Option Ordering
  | number m, number n => m.order n
  | string s, string t => some (compare s t)
  | _, _ => none

/-- Numbers are equal by their order, other values by what they hold. -/
def equals : Value → Value → Bool
  | number m, number n => m.order n == some .eq
  | v, w => v.same w

end Value

/-! ## Comparison -/

/-- Whether an operator holds between two values. -/
def Operator.holdsOn (op : Operator) (v w : Value) : Bool :=
  match op with
  | eq => v.equals w
  | ne => !v.equals w
  | lt => v.order? w == some .lt
  | gt => v.order? w == some .gt
  | le => v.order? w == some .lt || v.order? w == some .eq
  | ge => v.order? w == some .gt || v.order? w == some .eq

/-- Whether an operator holds between two operands. Absence differs from everything, itself included. -/
def Operator.holds (op : Operator) : Option Value → Option Value → Bool
  | some v, some w => op.holdsOn v w
  | _, _ => op = ne

end Rulebook
