import Rulebook.Expression.Token
import Rulebook.Path

/-!
# `Rulebook.Expression.Tree` — syntax trees

A tree keeps the span of every part, so that an error of evaluation can quote it, and the height of every
part that has operands, so that reading can check it without another walk.

## Contents
* `Tree`, `Tree.span`, `Tree.inSpan` — trees and their places in the source
* `Tree.storedHeight`, `Tree.height` — the height as stored and as counted
* `Tree.ofNegation`, `Tree.ofBinary` — trees with the height of their operands taken into account
* `Tree.fields` — the paths in a tree, from left to right
-/

namespace Rulebook.Expression

/-- A syntax tree. -/
inductive Tree where
  | literal (v : Scalar) (span : Span)
  | field (p : Path) (span : Span)
  | negation (inner : Tree) (span : Span) (height : Nat)
  | binary (op : BinaryOp) (left right : Tree) (span : Span) (height : Nat)
  deriving DecidableEq

namespace Tree

/-- The place of a tree in the source. -/
def span : Tree → Span
  | literal _ s | field _ s | negation _ s _ | binary _ _ _ s _ => s

/-- The same tree at another place: parentheses belong to what they enclose. -/
def inSpan (s : Span) : Tree → Tree
  | literal v _ => literal v s
  | field p _ => field p s
  | negation t _ h => negation t s h
  | binary op l r _ h => binary op l r s h

/-! ## Height -/

/-- The height that a tree stores; that of a leaf is one. -/
def storedHeight : Tree → Nat
  | literal _ _ | field _ _ => 1
  | negation _ _ h | binary _ _ _ _ h => h

/-- The number of trees on the longest way down. -/
def height : Tree → Nat
  | literal _ _ | field _ _ => 1
  | negation t _ _ => t.height + 1
  | binary _ l r _ _ => max l.height r.height + 1

/-- The negation of a tree. -/
def ofNegation (inner : Tree) (span : Span) : Tree := negation inner span (inner.storedHeight + 1)

/-- Two trees joined by an operator, from the start of the first to the end of the second. -/
def ofBinary (op : BinaryOp) (left right : Tree) : Tree :=
  binary op left right ⟨left.span.start, right.span.stop⟩ (max left.storedHeight right.storedHeight + 1)

/-! ## Fields -/

/-- The paths in a tree, from left to right, as often as they occur. -/
def fields : Tree → List Path
  | literal _ _ => []
  | field p _ => [p]
  | negation t _ _ => t.fields
  | binary _ l r _ _ => l.fields ++ r.fields

end Tree

end Rulebook.Expression
