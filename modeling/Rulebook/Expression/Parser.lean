import Rulebook.Expression.Problem
import Rulebook.Expression.Tree

/-!
# `Rulebook.Expression.Parser` — from tokens to trees

```text
expr     := sum ( ("==" | "!=" | "<" | ">" | "<=" | ">=") sum )?
sum      := product ( ("+" | "-") product )*
product  := unary ( ("*" | "/" | "%") unary )*
unary    := "-" unary | primary
primary  := NUMBER | STRING | "true" | "false" | PATH | "(" expr ")"
```

Parentheses and minus signs nest up to a limit. What is left of it, the allowance, shrinks with each of
them, and the parser recurs on it. A part of the grammar is a function from the tokens ahead to a tree and
the tokens after it.

## Contents
* `join` — two operands under an operator, within the limit on height
* `chain` — operands with operators between them, grouped to the left
* `product`, `sum`, `comparison` — the levels of the grammar above `unary`
* `unary` — a minus sign or a primary
* `parseTree` — all tokens of a source
-/

namespace Rulebook.Expression

/-- A problem and the span that it concerns. -/
structure LocatedProblem where
  problem : Problem
  span : Span
  deriving DecidableEq

/-- The tree read from the start of a list of tokens, and the tokens after it. -/
abbrev Parsed := Except LocatedProblem (Tree × List Lexeme)

/-- The span of the next token; at the end, the empty span behind the source. -/
def nextSpan (length : Nat) : List Lexeme → Span
  | [] => ⟨length, length⟩
  | l :: _ => l.span

/-! ## Operators between operands -/

/-- Two operands under an operator. The tree may not grow too high. -/
def join (op : BinaryOp) (left right : Tree) : Except LocatedProblem Tree :=
  let t := Tree.ofBinary op left right
  if maxHeight < t.storedHeight then .error ⟨.tooHigh, t.span⟩ else .ok t

/-- The operator at the start of `ls`, if it is one of those that `among` admits. -/
def leadingOp? (among : BinaryOp → Bool) : List Lexeme → Option (BinaryOp × List Lexeme)
  | ⟨.op o, _⟩ :: rest => if among o then some (o, rest) else none
  | _ => none

/-- The operands that follow `left`, each after an operator, grouped to the left. Each takes a token at
    least, so the tokens ahead bound their number. -/
def chainFrom (among : BinaryOp → Bool) (operand : List Lexeme → Parsed) :
    Nat → Tree → List Lexeme → Parsed
  | 0, left, ls => .ok (left, ls)
  | bound + 1, left, ls =>
    match leadingOp? among ls with
    | none => .ok (left, ls)
    | some (op, rest) => do
      let (right, rest) ← operand rest
      let t ← join op left right
      chainFrom among operand bound t rest

/-- Operands with operators between them, grouped to the left. -/
def chain (among : BinaryOp → Bool) (operand : List Lexeme → Parsed) (ls : List Lexeme) : Parsed := do
  let (left, rest) ← operand ls
  chainFrom among operand rest.length left rest

/-- Products of what `unary` reads. -/
def product (unary : List Lexeme → Parsed) : List Lexeme → Parsed :=
  chain BinaryOp.isMultiplicative unary

/-- Sums of products of what `unary` reads. -/
def sum (unary : List Lexeme → Parsed) : List Lexeme → Parsed :=
  chain BinaryOp.isAdditive (product unary)

/-- A sum, or two sums compared. A comparison is no operand of another one. -/
def comparison (unary : List Lexeme → Parsed) (ls : List Lexeme) : Parsed := do
  let (left, rest) ← sum unary ls
  match leadingOp? BinaryOp.isComparison rest with
  | none => return (left, rest)
  | some (op, rest) => do
    let (right, rest) ← sum unary rest
    let t ← join op left right
    return (t, rest)

/-! ## Operands -/

/-- The closing parenthesis after `inner`, whose opening one stands at `start`. -/
def closing (length start : Nat) (inner : Tree) : List Lexeme → Parsed
  | ⟨.closeParen, s⟩ :: rest => .ok (inner.inSpan ⟨start, s.stop⟩, rest)
  | ls => .error ⟨.unclosed, ⟨start, (nextSpan length ls).stop⟩⟩

/-- An operand under its minus signs. Inside parentheses and after a minus sign the allowance is one
    less. -/
def unary (length : Nat) (allowance : Nat) (ls : List Lexeme) : Parsed :=
  match ls with
  | [] => .error ⟨.endOfSource, nextSpan length []⟩
  | ⟨.op .sub, s⟩ :: rest =>
    match allowance with
    | 0 => .error ⟨.tooDeep, nextSpan length rest⟩
    | a + 1 => do
      let (inner, rest) ← unary length a rest
      return (.ofNegation inner ⟨s.start, inner.span.stop⟩, rest)
  | ⟨.openParen, s⟩ :: rest =>
    match allowance with
    | 0 => .error ⟨.tooDeep, nextSpan length rest⟩
    | a + 1 => do
      let (inner, rest) ← comparison (unary length a) rest
      closing length s.start inner rest
  | ⟨.literal v, s⟩ :: rest => .ok (.literal v s, rest)
  | ⟨.path p, s⟩ :: rest =>
    match Path.parse p with
    | .ok path => .ok (.field path s, rest)
    | .error e => .error ⟨.invalidPath e, s⟩
  | ⟨t, s⟩ :: _ => .error ⟨.unexpected t, s⟩

/-! ## Sources -/

/-- The tree of all tokens of a source of `length` characters. -/
def parseTree (length : Nat) (ls : List Lexeme) : Except LocatedProblem Tree :=
  if ls.isEmpty then .error ⟨.empty, ⟨0, length⟩⟩
  else do
    let (t, rest) ← comparison (unary length (maxNesting - 1)) ls
    match rest with
    | [] => return t
    | l :: _ => .error ⟨.trailing l.token, l.span⟩

end Rulebook.Expression
