import Rulebook.Binary64.Decimal
import Rulebook.Value.Text

/-!
# `Rulebook.Expression.Token` — scalars, operators and tokens of the expression language

## Contents
* `Scalar` — what an expression evaluates to: an integer of 64 bits, a float, a string or a truth value
* `BinaryOp` — the operators between two operands
* `Token`, `Span`, `Lexeme` — a token, and a token with its place in the source
-/

namespace Rulebook

/-! ## Scalars -/

/-- The value of an expression. -/
inductive Scalar where
  | int (n : Int64)
  | float (x : Binary64)
  | string (s : String)
  | bool (b : Bool)
  deriving DecidableEq

namespace Scalar

/-- Floats are written without an exponent, and whole ones without a fraction. -/
def layout : Binary64.Layout := ⟨.up, fun _ => true, ""⟩

/-- The text of a scalar; a string is its own text. -/
def text : Scalar → String
  | int n => intText n.toInt
  | float x => layout.write x
  | string s => s
  | bool b => if b then "true" else "false"

/-- What a scalar is called in a message. -/
def kindName : Scalar → String
  | int _ | float _ => "number"
  | string _ => "string"
  | bool _ => "boolean"

/-- A number as a float. -/
def toBinary64? : Scalar → Option Binary64
  | int n => some (.ofInt n.toInt)
  | float x => some x
  | _ => none

/-- The scalar as a JSON value, which a float that is not finite does not have. -/
def toValue? : Scalar → Option Value
  | int n => some (.number (.ofInt64 n))
  | float (.finite x) => some (.number (.float x))
  | float _ => none
  | string s => some (.string s)
  | bool b => some (.bool b)

end Scalar

namespace Expression

/-! ## Operators -/

/-- An operator between two operands. -/
inductive BinaryOp where
  | add
  | sub
  | mul
  | div
  | rem
  | eq
  | ne
  | lt
  | gt
  | le
  | ge
  deriving DecidableEq

/-- The text of an operator. -/
def BinaryOp.symbol : BinaryOp → String
  | add => "+"
  | sub => "-"
  | mul => "*"
  | div => "/"
  | rem => "%"
  | eq => "=="
  | ne => "!="
  | lt => "<"
  | gt => ">"
  | le => "<="
  | ge => ">="

/-- The operators that compare. -/
def BinaryOp.isComparison : BinaryOp → Bool
  | eq | ne | lt | gt | le | ge => true
  | _ => false

/-- The operators that add or subtract. -/
def BinaryOp.isAdditive : BinaryOp → Bool
  | add | sub => true
  | _ => false

/-- The operators that multiply or divide. -/
def BinaryOp.isMultiplicative : BinaryOp → Bool
  | mul | div | rem => true
  | _ => false

/-! ## Tokens -/

/-- A token. A minus sign is one token, whether it has an operand before it or not. -/
inductive Token where
  | literal (v : Scalar)
  | path (text : String)
  | op (o : BinaryOp)
  | openParen
  | closeParen
  deriving DecidableEq

/-- A token in a message: numbers by their value, strings between quotes but not escaped. -/
def Token.text : Token → String
  | literal (.string s) => "\"" ++ s ++ "\""
  | literal v => v.text
  | path p => p
  | op o => o.symbol
  | openParen => "("
  | closeParen => ")"

/-- A part of a source, from one position up to another, counted in characters. -/
structure Span where
  start : Nat
  stop : Nat
  deriving DecidableEq

/-- The characters of a source in a span. -/
def Span.of (s : Span) (source : List Char) : List Char :=
  (source.drop s.start).take (s.stop - s.start)

/-- The part of a source that a message quotes: the span, or all of the source where the span is empty. -/
def Span.fragment (s : Span) (source : String) : String :=
  let cs := s.of source.toList
  if cs.isEmpty then source else String.ofList cs

/-- A token and its place in the source. -/
structure Lexeme where
  token : Token
  span : Span
  deriving DecidableEq

end Expression

end Rulebook
