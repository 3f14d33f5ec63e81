import Rulebook.Proofs.Expression.Parsing

/-!
# `Rulebook.Proofs.Expression.Leaves` — the leaves of a tree are the operands of its source

Operators, minus signs and parentheses give a tree its shape, and the tokens that they stand between are its leaves.
Whatever the shape, from left to right the leaves are these tokens in the order of the source: none of them is lost, none
comes twice, and none changes its place with another one. So the fields of an expression are the path tokens of its
source.

* `operands`, `Derives.leaves_eq` — the leaves of a derivation are the operands among its tokens
* `Tree.texts_fields` — the fields of a tree are the paths among its leaves
* `fields_are_paths` — **the fields of an expression** are the path tokens, each of them cut at its dots
-/

namespace Rulebook.Expression

/-! ## Leaves -/

/-- Whether a token is an operand by itself can be computed. -/
instance : DecidablePred Token.IsOperand
  | .literal _ | .path _ => .isTrue trivial
  | .op _ | .openParen | .closeParen => .isFalse id

/-- The tokens that are operands by themselves, in their order. -/
def operands (ts : List Token) : List Token := ts.filter fun t => t.IsOperand

theorem operands_append (ts us : List Token) : operands (ts ++ us) = operands ts ++ operands us :=
  List.filter_append ts us

/-- The tokens at the leaves of an outline, from left to right. -/
def Outline.leaves : Outline → List Token
  | leaf t => [t]
  | negation a => a.leaves
  | binary _ a b => a.leaves ++ b.leaves

/-- **A derivation keeps the operands in their order**, and it has no other leaves. -/
theorem Derives.leaves_eq {n : Nat} {p : Part} {ts : List Token} {a : Outline} (h : Derives n p ts a) :
    a.leaves = operands ts := by
  have joined : ∀ {ts us : List Token} {a b : Outline} (op : BinaryOp), a.leaves = operands ts →
      b.leaves = operands us → (Outline.binary op a b).leaves = operands (ts ++ .op op :: us) := by
    intro ts us a b op left right
    -- An operator is no operand.
    have none : operands (.op op :: us) = operands us := rfl
    rw [Outline.leaves, operands_append, none, left, right]
  induction h with
  | @operand n t operand => simp [Outline.leaves, operands, operand]
  | @parentheses n ts a _ ih =>
      have inside : operands (.openParen :: (ts ++ [.closeParen])) = operands (ts ++ [.closeParen]) := rfl
      rw [inside, operands_append, ih]
      exact (List.append_nil _).symm
  | primary _ ih => exact ih
  | minus _ ih => exact ih
  | single _ ih => exact ih
  | chain _ _ _ ih ih' => exact joined _ ih ih'
  | sum _ ih => exact ih
  | comparison _ _ _ ih ih' => exact joined _ ih ih'

/-! ## Fields -/

/-- The text of a path token. -/
def Token.path? : Token → Option String
  | .path s => some s
  | _ => none

/-- The texts of the path tokens, in their order. -/
def paths (ts : List Token) : List String := ts.filterMap Token.path?

theorem mem_paths {ts : List Token} {s : String} : s ∈ paths ts ↔ .path s ∈ ts := by
  have named : ∀ t : Token, t.path? = some s ↔ .path s = t := by
    intro t
    cases t <;> simp [Token.path?, eq_comm]
  simp only [paths, List.mem_filterMap, named, exists_eq_right']

/-- Every path token is an operand. -/
theorem paths_operands (ts : List Token) : paths (operands ts) = paths ts := by
  have same : ∀ t : Token, (if decide t.IsOperand then t.path? else none) = t.path? := by
    intro t
    cases t <;> rfl
  simp only [paths, operands, List.filterMap_filter, same]

/-- The fields of a tree are the paths among its leaves. -/
theorem Tree.texts_fields (t : Tree) : t.fields.map Path.text = paths t.outline.leaves := by
  induction t with
  | literal v s => rfl
  | field p s => rfl
  | negation t s h ih => exact ih
  | binary op l r s h ihl ihr =>
      rw [fields, List.map_append, ihl, ihr, outline, Outline.leaves, paths, paths, paths, List.filterMap_append]

/-- **The fields of an expression are the path tokens of its source.** Every path token of a source that can be cut into
    tokens is the text of a path, whose segments stand between its dots. If the source is read as an expression, the texts
    of the fields are the path tokens of the source in their order, each as often as it occurs there; the segments of each
    field are the pieces of the token between its dots, and reading the tokens as paths gives the fields. -/
theorem fields_are_paths (source : String) :
    (∀ ls, lex source = .ok ls → ∀ s ∈ paths (tokens ls),
      ∃ p, Path.parse s = .ok p ∧ p.segments = Text.splitText '.' s) ∧
    ∀ e, Expression.parse source = .ok e →
      ∃ ls, lex source = .ok ls ∧ e.fields.map Path.text = paths (tokens ls) ∧
        e.fields.map Path.segments = (paths (tokens ls)).map (Text.splitText '.') ∧
        (paths (tokens ls)).map Path.parse = e.fields.map .ok := by
  constructor
  · intro ls lexed s mem
    obtain ⟨l, inside, token⟩ := List.mem_map.mp (mem_paths.mp mem)
    obtain ⟨p, parsed, segments, -⟩ := mem_lex_path lexed inside token
    exact ⟨p, parsed, segments⟩
  · intro e parsed
    obtain ⟨ls, lexed, spelled, -⟩ := spells_of_parse parsed
    have texts : e.fields.map Path.text = paths (tokens ls) := by
      rw [fields, e.tree.texts_fields, spelled.derives.leaves_eq, paths_operands]
    refine ⟨ls, lexed, texts, ?_, ?_⟩
    · rw [← texts, List.map_map]
      exact List.map_congr_left fun p _ => p.splitText_text.symm
    · rw [← texts, List.map_map]
      exact List.map_congr_left fun p _ => p.parse_text

/-- Fields among minus signs, parentheses and operators of three levels, one of them twice. -/
theorem fields_are_paths_nested :
    ∃ e ls, Expression.parse "-(a.b + 2) * (d / a.b) < c" = .ok e ∧ lex "-(a.b + 2) * (d / a.b) < c" = .ok ls ∧
      e.fields.map Path.text = ["a.b", "d", "a.b", "c"] ∧
      e.fields.map Path.segments = [["a", "b"], ["d"], ["a", "b"], ["c"]] ∧
      ["a.b", "d", "a.b", "c"].map Path.parse = e.fields.map .ok ∧
      ∃ p, Path.parse "a.b" = .ok p ∧ p.segments = ["a", "b"] := by
  have read : ∃ e ls, Expression.parse "-(a.b + 2) * (d / a.b) < c" = .ok e ∧
      lex "-(a.b + 2) * (d / a.b) < c" = .ok ls ∧ paths (tokens ls) = ["a.b", "d", "a.b", "c"] :=
    ⟨_, _, rfl, rfl, rfl⟩
  obtain ⟨e, ls, parsed, lexed, found⟩ := read
  obtain ⟨readable, exactly⟩ := fields_are_paths "-(a.b + 2) * (d / a.b) < c"
  obtain ⟨ls', lexed', texts, segments, same⟩ := exactly e parsed
  cases lexed.symm.trans lexed'
  rw [found] at texts segments same
  exact ⟨e, ls, parsed, lexed, texts, segments, same, readable ls lexed "a.b" (found ▸ List.mem_cons_self)⟩

end Rulebook.Expression
