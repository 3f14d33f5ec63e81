import Rulebook.Expression.Token
import Rulebook.Path

/-!
# `Rulebook.Expression.Problem` — what can be wrong with an expression

An error of an expression is a problem together with the part of the source that it concerns.

## Contents
* `Problem`, `Problem.message` — the problems of reading and of evaluating, and their texts
* `maxNesting`, `maxHeight` — the limits that reading checks
* `ExpressionError` — a problem and the fragment of the source
-/

namespace Rulebook

namespace Expression

/-- How many parentheses and minus signs may stand around any point, the outermost level counted in. -/
def maxNesting : Nat := 64

/-- How high the tree below an operator may be. -/
def maxHeight : Nat := 256

/-- What is wrong with an expression. -/
inductive Problem where
  | unrecognised (text : String)
  | empty
  | trailing (token : Token)
  | unexpected (token : Token)
  | endOfSource
  | unclosed
  | tooDeep
  | tooHigh
  | invalidPath (e : InvalidPath)
  | unknownField (p : Path)
  | notScalar (kind : String)
  | overflow
  | divisionByZero
  | notFinite
  | cannotNegate (kind : String)
  | unsupported (op : BinaryOp) (left right : String)
  deriving DecidableEq

/-- The text of a problem. -/
def Problem.message : Problem → String
  | unrecognised t => s!"无法识别的输入 '{t}'"
  | empty => "表达式为空"
  | trailing t => s!"多余的输入 '{t.text}'"
  | unexpected t => s!"意外的符号 '{t.text}'"
  | endOfSource => "表达式意外结束"
  | unclosed => "缺少右括号"
  | tooDeep => s!"表达式嵌套超过 {maxNesting} 层"
  | tooHigh => s!"表达式过长，语法树高度超过 {maxHeight}"
  | invalidPath e => e.message
  | unknownField p => s!"未知字段 '{p.text}'"
  | notScalar k => s!"字段值不是标量: {k}"
  | overflow => "整数溢出"
  | divisionByZero => "除数为零"
  | notFinite => "结果不是有限数值"
  | cannotNegate k => s!"无法对 {k} 取负"
  | unsupported op l r => s!"操作符 '{op.symbol}' 不支持 {l} 与 {r}"

end Expression

/-- A problem and the part of the source that it concerns. -/
structure ExpressionError where
  problem : Expression.Problem
  fragment : String
  deriving DecidableEq

namespace ExpressionError

/-- The error of a problem at a span of a source. -/
def ofSpan (source : String) (span : Expression.Span) (problem : Expression.Problem) : ExpressionError :=
  ⟨problem, span.fragment source⟩

/-- The problem and its fragment as text. -/
def text (e : ExpressionError) : String := s!"{e.problem.message}: '{e.fragment}'"

end ExpressionError

end Rulebook
