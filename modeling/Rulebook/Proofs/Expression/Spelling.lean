import Rulebook.Expression.Parser
import Rulebook.Proofs.Expression.Grammar

/-!
# `Rulebook.Proofs.Expression.Spelling` — trees and the lexemes that they are read from

The grammar speaks of tokens and outlines. `Spells` is the same grammar with places: it says which lexemes a tree is read
from, with the places in the tree, the parentheses around its parts and the limits on nesting and height. So a spelling
is a derivation of the outline, and more than that: the tree begins where its first lexeme does and ends where its last
one does, and every part of a tree is spelled by some of the lexemes, one after the other.

* `Tree.outline`, `Tree.Shows` — a tree without its places, and a tree with the right height stored in it
* `Spells` — the grammar with places
* `Spells.derives`, `Spells.low`, `Spells.shows` — what a spelling says about the outline
* `Spells.starts`, `Spells.ends` — where a tree begins and ends
* `Spells.comparison_of` — whatever is spelled is an expression by itself
-/

namespace Rulebook.Expression

/-! ## Trees and outlines -/

/-- A tree without its places. A field is the token that it was read from. -/
def Tree.outline : Tree → Outline
  | literal v _ => .leaf (.literal v)
  | field p _ => .leaf (.path p.text)
  | negation t _ _ => .negation t.outline
  | binary op l r _ _ => .binary op l.outline r.outline

/-- A tree whose outline is a literal is that literal. -/
theorem Tree.outline_eq_literal {node : Tree} {v : Scalar} (h : node.outline = .leaf (.literal v)) :
    ∃ span, node = .literal v span := by
  cases node with
  | literal v span =>
      cases h
      exact ⟨span, rfl⟩
  | _ => cases h

/-- A tree whose outline is a path is that field. -/
theorem Tree.outline_eq_path {node : Tree} {s : String} (h : node.outline = .leaf (.path s)) :
    ∃ x span, node = .field x span ∧ x.text = s := by
  cases node with
  | field x span =>
      cases h
      exact ⟨x, span, rfl, rfl⟩
  | _ => cases h

/-- A tree whose outline is a negation is one. -/
theorem Tree.outline_eq_negation {node : Tree} {a : Outline} (h : node.outline = .negation a) :
    ∃ t span height, node = .negation t span height ∧ t.outline = a := by
  cases node with
  | negation t span height =>
      cases h
      exact ⟨t, span, height, rfl, rfl⟩
  | _ => cases h

/-- A tree whose outline has an operator at its top has it there too. -/
theorem Tree.outline_eq_binary {node : Tree} {op : BinaryOp} {a b : Outline} (h : node.outline = .binary op a b) :
    ∃ l r span height, node = .binary op l r span height ∧ l.outline = a ∧ r.outline = b := by
  cases node with
  | binary op l r span height =>
      cases h
      exact ⟨l, r, span, height, rfl, rfl, rfl⟩
  | _ => cases h

/-- A tree with an outline that stores the height of the outline. -/
structure Tree.Shows (node : Tree) (a : Outline) : Prop where
  outline : node.outline = a
  height : node.storedHeight = a.height

/-- Parentheses leave no trace in an outline. -/
theorem Tree.Shows.inSpan {node : Tree} {a : Outline} (h : node.Shows a) (s : Span) : (node.inSpan s).Shows a := by
  obtain ⟨rfl, height⟩ := h
  cases node <;> exact ⟨rfl, height⟩

theorem Tree.outline_inSpan (node : Tree) (s : Span) : (node.inSpan s).outline = node.outline := by
  cases node <;> rfl

theorem Tree.span_inSpan (node : Tree) (s : Span) : (node.inSpan s).span = s := by
  cases node <;> rfl

theorem Tree.Shows.negation {node : Tree} {a : Outline} (h : node.Shows a) (s : Span) :
    (Tree.ofNegation node s).Shows (.negation a) :=
  ⟨congrArg Outline.negation h.outline, congrArg (· + 1) h.height⟩

theorem Tree.Shows.binary {left right : Tree} {a b : Outline} (hl : left.Shows a) (hr : right.Shows b)
    (op : BinaryOp) : (Tree.ofBinary op left right).Shows (.binary op a b) where
  outline := by rw [Tree.ofBinary, Tree.outline, hl.outline, hr.outline]
  height := by rw [Tree.ofBinary, Tree.storedHeight, hl.height, hr.height, Outline.height]

/-- The tokens of a list, without their places. -/
abbrev tokens (ls : List Lexeme) : List Token := ls.map Lexeme.token

/-! ## The grammar with places -/

/-- The lexemes that a tree is read from as a part of the grammar, with at most as many parentheses and minus signs
    around any point as the number says, and no tree below an operator higher than the limit. -/
inductive Spells : Nat → Part → List Lexeme → Tree → Prop
  | literal {n : Nat} (v : Scalar) (s : Span) : Spells n .primary [⟨.literal v, s⟩] (.literal v s)
  | field {n : Nat} (p : Path) (s : Span) : Spells n .primary [⟨.path p.text, s⟩] (.field p s)
  | parentheses {n : Nat} {ls : List Lexeme} {t : Tree} (s s' : Span) : Spells n .comparison ls t →
      Spells (n + 1) .primary (⟨.openParen, s⟩ :: (ls ++ [⟨.closeParen, s'⟩])) (t.inSpan ⟨s.start, s'.stop⟩)
  | primary {n : Nat} {ls : List Lexeme} {t : Tree} : Spells n .primary ls t → Spells n .unary ls t
  | minus {n : Nat} {ls : List Lexeme} {t : Tree} (s : Span) : Spells n .unary ls t →
      Spells (n + 1) .unary (⟨.op .sub, s⟩ :: ls) (.ofNegation t ⟨s.start, t.span.stop⟩)
  | single {n : Nat} {l : Level} {ls : List Lexeme} {t : Tree} : Spells n l.operand ls t → Spells n (.chain l) ls t
  | chain {n : Nat} {l : Level} {ls us : List Lexeme} {t u : Tree} {op : BinaryOp} (s : Span) :
      Spells n (.chain l) ls t → l.admits op → Spells n l.operand us u →
      (Tree.ofBinary op t u).storedHeight ≤ maxHeight →
      Spells n (.chain l) (ls ++ ⟨.op op, s⟩ :: us) (.ofBinary op t u)
  | sum {n : Nat} {ls : List Lexeme} {t : Tree} : Spells n (.chain .sum) ls t → Spells n .comparison ls t
  | comparison {n : Nat} {ls us : List Lexeme} {t u : Tree} {op : BinaryOp} (s : Span) :
      Spells n (.chain .sum) ls t → op.isComparison → Spells n (.chain .sum) us u →
      (Tree.ofBinary op t u).storedHeight ≤ maxHeight →
      Spells n .comparison (ls ++ ⟨.op op, s⟩ :: us) (.ofBinary op t u)

namespace Spells

variable {n m : Nat} {p : Part} {ls : List Lexeme} {t : Tree}

/-- Deeper nesting may be allowed. -/
theorem mono (h : Spells n p ls t) (le : n ≤ m) : Spells m p ls t := by
  induction h generalizing m with
  | literal v s => exact .literal v s
  | field p s => exact .field p s
  | parentheses s s' _ ih =>
      obtain ⟨k, rfl⟩ := Nat.exists_eq_add_of_le' le
      exact .parentheses s s' (ih (Nat.le_add_left _ _))
  | primary _ ih => exact .primary (ih le)
  | minus s _ ih =>
      obtain ⟨k, rfl⟩ := Nat.exists_eq_add_of_le' le
      exact .minus s (ih (Nat.le_add_left _ _))
  | single _ ih => exact .single (ih le)
  | chain s _ admits _ low ih ih' => exact .chain s (ih le) admits (ih' le) low
  | sum _ ih => exact .sum (ih le)
  | comparison s _ compares _ low ih ih' => exact .comparison s (ih le) compares (ih' le) low

/-- Whatever is spelled is an expression by itself: every part of the grammar is one, with nothing around it. -/
theorem comparison_of (h : Spells n p ls t) : Spells n .comparison ls t := by
  have chained : Spells n (.chain .sum) ls t → Spells n .comparison ls t := .sum
  have multiplied : Spells n (.chain .product) ls t → Spells n .comparison ls t := fun h => chained (.single h)
  have unary : Spells n .unary ls t → Spells n .comparison ls t := fun h => multiplied (.single h)
  match p with
  | .primary => exact unary (.primary h)
  | .unary => exact unary h
  | .chain .product => exact multiplied h
  | .chain .sum => exact chained h
  | .comparison => exact h

/-! ## Outlines -/

/-- **A spelling is a derivation** of the tokens, and the tree shows the outline of it. -/
theorem derives (h : Spells n p ls t) : Derives n p (tokens ls) t.outline := by
  induction h with
  | literal v s => exact .operand trivial
  | field p s => exact .operand trivial
  | parentheses s s' _ ih =>
      rw [Tree.outline_inSpan]
      simpa using Derives.parentheses ih
  | primary _ ih => exact .primary ih
  | minus s _ ih => exact .minus ih
  | single _ ih => exact .single ih
  | chain s _ admits _ _ ih ih' =>
      rw [tokens, List.map_append]
      exact .chain ih admits ih'
  | sum _ ih => exact .sum ih
  | comparison s _ compares _ _ ih ih' =>
      rw [tokens, List.map_append]
      exact .comparison ih compares ih'

theorem shows (h : Spells n p ls t) : t.Shows t.outline := by
  induction h with
  | literal v s => exact ⟨rfl, rfl⟩
  | field p s => exact ⟨rfl, rfl⟩
  | parentheses s s' _ ih =>
      rw [Tree.outline_inSpan]
      exact ih.inSpan _
  | primary _ ih => exact ih
  | minus s _ ih => exact ih.negation _
  | single _ ih => exact ih
  | chain s _ _ _ _ ih ih' => exact ih.binary ih' _
  | sum _ ih => exact ih
  | comparison s _ _ _ _ ih ih' => exact ih.binary ih' _

theorem low (h : Spells n p ls t) : t.outline.Low maxHeight := by
  induction h with
  | literal v s => trivial
  | field p s => trivial
  | parentheses s s' _ ih =>
      rw [Tree.outline_inSpan]
      exact ih
  | primary _ ih => exact ih
  | minus s _ ih => exact ih
  | single _ ih => exact ih
  | chain s left _ right low ih ih' =>
      rw [(left.shows.binary right.shows _).height] at low
      exact ⟨ih, ih', low⟩
  | sum _ ih => exact ih
  | comparison s left _ right low ih ih' =>
      rw [(left.shows.binary right.shows _).height] at low
      exact ⟨ih, ih', low⟩

/-! ## Places -/

/-- A tree begins where its first lexeme does. -/
theorem starts (h : Spells n p ls t) : ∃ l, ls.head? = some l ∧ l.span.start = t.span.start := by
  have before : ∀ {ls us : List Lexeme} {t u : Tree} {op : BinaryOp},
      (∃ l, ls.head? = some l ∧ l.span.start = t.span.start) →
      ∃ l, (ls ++ us).head? = some l ∧ l.span.start = (Tree.ofBinary op t u).span.start := by
    rintro ls us t u op ⟨l, first, start⟩
    exact ⟨l, by rw [List.head?_append, first]; rfl, start⟩
  induction h with
  | literal v s => exact ⟨_, rfl, rfl⟩
  | field p s => exact ⟨_, rfl, rfl⟩
  | parentheses s s' _ _ => exact ⟨_, rfl, by rw [Tree.span_inSpan]⟩
  | primary _ ih => exact ih
  | minus s _ _ => exact ⟨_, rfl, rfl⟩
  | single _ ih => exact ih
  | chain s _ _ _ _ ih _ => exact before ih
  | sum _ ih => exact ih
  | comparison s _ _ _ _ ih _ => exact before ih

/-- A tree ends where its last lexeme does. -/
theorem ends (h : Spells n p ls t) : ∃ l, ls.getLast? = some l ∧ l.span.stop = t.span.stop := by
  have after : ∀ (ls : List Lexeme) {us : List Lexeme} {stop : Nat},
      (∃ l, us.getLast? = some l ∧ l.span.stop = stop) → ∃ l, (ls ++ us).getLast? = some l ∧ l.span.stop = stop := by
    rintro ls us stop ⟨l, last, stops⟩
    exact ⟨l, by rw [List.getLast?_append, last]; rfl, stops⟩
  induction h with
  | literal v s => exact ⟨_, rfl, rfl⟩
  | field p s => exact ⟨_, rfl, rfl⟩
  | parentheses s s' _ _ => exact after (⟨.openParen, s⟩ :: _) ⟨⟨.closeParen, s'⟩, rfl, by rw [Tree.span_inSpan]⟩
  | primary _ ih => exact ih
  | minus s _ ih => exact after [⟨.op .sub, s⟩] ih
  | single _ ih => exact ih
  | chain s _ _ _ _ _ ih => exact after _ (after [⟨.op _, s⟩] ih)
  | sum _ ih => exact ih
  | comparison s _ _ _ _ _ ih => exact after _ (after [⟨.op _, s⟩] ih)

end Spells

end Rulebook.Expression
