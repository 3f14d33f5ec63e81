import Rulebook.Proofs.Expression.Cutting
import Rulebook.Proofs.Expression.Parsing

/-!
# `Rulebook.Proofs.Expression.Fragments` — what an error of evaluation quotes

An error of evaluation quotes the part of the source that failed. This part is an expression by itself, and evaluated on
the same fact it fails with the same problem and quotes all of itself. Three things come together in that: the part
stands between two tokens, and cutting a source there leaves its tokens as they are; the parser reads these tokens as the
same tree, whatever stood around them; and a tree fails by its own operation on the values of its operands, wherever it
stands.

* `Tree.Fails` — a tree fails itself: its operands have values and its operation on them has a problem
* `Spells.culprit` — an error comes from a part of the tree that fails itself
* `parse_fragment` — a part of an expression, cut out, is read as the same tree
* `fragment_is_culprit` — what an error quotes fails alone with the same error
-/

namespace Rulebook.Expression

variable {fact : Fact}

/-! ## Trees that fail -/

theorem Tree.inSpan_inSpan (t : Tree) (s s' : Span) : (t.inSpan s).inSpan s' = t.inSpan s' := by
  cases t <;> rfl

theorem Tree.inSpan_span (t : Tree) : t.inSpan t.span = t := by
  cases t <;> rfl

/-- **A tree fails itself**: its operands have values, and what it does with them has a problem. -/
inductive Tree.Fails (fact : Fact) : Tree → Problem → Prop where
  | unknown {p : Path} {s : Span} (absent : fact.get p = none) : Fails fact (.field p s) (.unknownField p)
  | field {p : Path} {s : Span} {v : Value} {e : Problem} (present : fact.get p = some v)
      (fails : scalarOf v = .error e) : Fails fact (.field p s) e
  | negation {t : Tree} {s : Span} {height : Nat} {v : Scalar} {e : Problem} (inner : t.evaluate fact = .ok v)
      (fails : negate v = .error e) : Fails fact (.negation t s height) e
  | binary {op : BinaryOp} {l r : Tree} {s : Span} {height : Nat} {a b : Scalar} {e : Problem}
      (left : l.evaluate fact = .ok a) (right : r.evaluate fact = .ok b) (fails : combine op a b = .error e) :
      Fails fact (.binary op l r s height) e

/-- A tree that fails itself has an error at its own place. -/
theorem Tree.Fails.evaluate {t : Tree} {e : Problem} (h : t.Fails fact e) :
    t.evaluate fact = .error ⟨e, t.span⟩ := by
  cases h with
  | unknown absent =>
      rw [Tree.evaluate, absent]
      rfl
  | field present fails =>
      rw [Tree.evaluate, present]
      simp only [fails]
      rfl
  | negation inner fails =>
      rw [Tree.evaluate, inner]
      simp only [bind, Except.bind, fails]
      rfl
  | binary left right fails =>
      rw [Tree.evaluate, left, right]
      simp only [bind, Except.bind, fails]
      rfl

/-- The operands of a tree. -/
def Tree.operands : Tree → List Tree
  | literal _ _ | field _ _ => []
  | negation t _ _ => [t]
  | binary _ l r _ _ => [l, r]

/-- **Where an error comes from**: from the tree itself, or from an operand of it. In that case the place of the tree
    does not show in the error. -/
theorem Tree.evaluate_error_cases {t : Tree} {e : LocatedProblem} (h : t.evaluate fact = .error e) :
    (t.Fails fact e.problem ∧ t.span = e.span) ∨
    ((∃ u ∈ t.operands, u.evaluate fact = .error e) ∧ ∀ s, (t.inSpan s).evaluate fact = .error e) := by
  cases t with
  | literal v s => cases h
  | field p s =>
      left
      rw [Tree.evaluate, located] at h
      obtain ⟨problem, found, rfl⟩ := mapError_eq_error.mp h
      cases get : fact.get p with
      | none =>
          rw [get] at found
          cases found
          exact ⟨.unknown get, rfl⟩
      | some v =>
          rw [get] at found
          exact ⟨.field get found, rfl⟩
  | negation t s height =>
      cases inner : t.evaluate fact with
      | error e' =>
          have same : ∀ s, (Tree.negation t s height).evaluate fact = .error e' := by
            intro s
            rw [Tree.evaluate, inner]
            rfl
          rw [same] at h
          cases h
          exact .inr ⟨⟨t, List.mem_cons_self, inner⟩, same⟩
      | ok v =>
          rw [Tree.evaluate, inner] at h
          obtain ⟨problem, found, rfl⟩ := mapError_eq_error.mp h
          exact .inl ⟨.negation inner found, rfl⟩
  | binary op l r s height =>
      cases left : l.evaluate fact with
      | error e' =>
          have same : ∀ s, (Tree.binary op l r s height).evaluate fact = .error e' := by
            intro s
            rw [Tree.evaluate, left]
            rfl
          rw [same] at h
          cases h
          exact .inr ⟨⟨l, List.mem_cons_self, left⟩, same⟩
      | ok a =>
          cases right : r.evaluate fact with
          | error e' =>
              have same : ∀ s, (Tree.binary op l r s height).evaluate fact = .error e' := by
                intro s
                rw [Tree.evaluate, left, right]
                rfl
              rw [same] at h
              cases h
              exact .inr ⟨⟨r, List.mem_cons_of_mem l List.mem_cons_self, right⟩, same⟩
          | ok b =>
              rw [Tree.evaluate, left, right] at h
              obtain ⟨problem, found, rfl⟩ := mapError_eq_error.mp h
              exact .inl ⟨.binary left right found, rfl⟩

/-! ## Trees of one outline -/

/-- A value depends on the outline of a tree alone. -/
theorem Tree.evaluate_of_outline {t u : Tree} (same : u.outline = t.outline) {v : Scalar}
    (h : t.evaluate fact = .ok v) : u.evaluate fact = .ok v := by
  induction t generalizing u v with
  | literal w s =>
      obtain ⟨s', rfl⟩ := Tree.outline_eq_literal same
      exact h
  | field p s =>
      obtain ⟨q, s', rfl, text⟩ := Tree.outline_eq_path same
      cases Path.text_injective text
      rw [Tree.evaluate, located, mapError_eq_ok] at h ⊢
      exact h
  | negation t s height ih =>
      obtain ⟨u, s', height', rfl, inner⟩ := Tree.outline_eq_negation same
      obtain ⟨w, value, result⟩ := bind_eq_ok.mp h
      rw [located, mapError_eq_ok] at result
      rw [Tree.evaluate, ih inner value]
      exact mapError_eq_ok.mpr result
  | binary op l r s height ihl ihr =>
      obtain ⟨l', r', s', height', rfl, left, right⟩ := Tree.outline_eq_binary same
      obtain ⟨a, first, h⟩ := bind_eq_ok.mp h
      obtain ⟨b, second, result⟩ := bind_eq_ok.mp h
      rw [located, mapError_eq_ok] at result
      rw [Tree.evaluate, ihl left first, ihr right second]
      exact mapError_eq_ok.mpr result

/-- So does the problem of a tree that fails itself. -/
theorem Tree.Fails.of_outline {t u : Tree} {e : Problem} (h : t.Fails fact e) (same : u.outline = t.outline) :
    u.Fails fact e := by
  cases h with
  | unknown absent =>
      obtain ⟨q, s, rfl, text⟩ := Tree.outline_eq_path same
      cases Path.text_injective text
      exact .unknown absent
  | field present fails =>
      obtain ⟨q, s, rfl, text⟩ := Tree.outline_eq_path same
      cases Path.text_injective text
      exact .field present fails
  | negation inner fails =>
      obtain ⟨u, s, height, rfl, outline⟩ := Tree.outline_eq_negation same
      exact .negation (Tree.evaluate_of_outline outline inner) fails
  | binary left right fails =>
      obtain ⟨l, r, s, height, rfl, first, second⟩ := Tree.outline_eq_binary same
      exact .binary (Tree.evaluate_of_outline first left) (Tree.evaluate_of_outline second right) fails

/-! ## The part that fails -/

/-- Some of the lexemes, one after the other, spell an expression that fails itself with an error. -/
def SpellsCulprit (fact : Fact) (n : Nat) (ls : List Lexeme) (e : LocatedProblem) : Prop :=
  ∃ used u, used <:+: ls ∧ Spells n .comparison used u ∧ u.Fails fact e.problem ∧ u.span = e.span

namespace SpellsCulprit

variable {n m : Nat} {ls us : List Lexeme} {e : LocatedProblem}

theorem itself {p : Part} {t : Tree} (h : Spells n p ls t) (own : t.Fails fact e.problem ∧ t.span = e.span) :
    SpellsCulprit fact n ls e :=
  ⟨ls, t, List.infix_rfl, h.comparison_of, own⟩

/-- What some of the lexemes spell is spelled by some of more lexemes, with more nesting allowed. -/
theorem within (h : SpellsCulprit fact n us e) (inside : us <:+: ls) (le : n ≤ m) : SpellsCulprit fact m ls e := by
  obtain ⟨used, u, part, spelled, own⟩ := h
  exact ⟨used, u, part.trans inside, spelled.mono le, own⟩

/-- An operand that has an error spells the culprit in its share of the lexemes. -/
theorem operand {t u w : Tree} {op : BinaryOp} {l : Lexeme} (mem : w ∈ (Tree.ofBinary op t u).operands)
    (fails : w.evaluate fact = .error e) (left : t.evaluate fact = .error e → SpellsCulprit fact n ls e)
    (right : u.evaluate fact = .error e → SpellsCulprit fact n us e) : SpellsCulprit fact n (ls ++ l :: us) e := by
  rcases List.mem_cons.mp mem with rfl | mem
  · exact (left fails).within (List.prefix_append ls (l :: us)).isInfix (Nat.le_refl n)
  · cases List.mem_singleton.mp mem
    have last : us <:+ ls ++ l :: us := (List.suffix_cons l us).trans (List.suffix_append ls (l :: us))
    exact (right fails).within last.isInfix (Nat.le_refl n)

end SpellsCulprit

/-- **An error comes from a part of the tree that fails itself.** It is spelled by some of the lexemes, one after the
    other, as an expression of its own. -/
theorem Spells.culprit {n : Nat} {p : Part} {ls : List Lexeme} {t : Tree} (h : Spells n p ls t)
    {e : LocatedProblem} (fails : t.evaluate fact = .error e) : SpellsCulprit fact n ls e := by
  induction h with
  | literal v s => cases fails
  | field p s =>
      rcases Tree.evaluate_error_cases fails with own | ⟨⟨u, mem, -⟩, -⟩
      · exact .itself (.field p s) own
      · cases mem
  | @parentheses n ls t s s' inner ih =>
      rcases Tree.evaluate_error_cases fails with own | ⟨-, anywhere⟩
      · exact .itself (.parentheses s s' inner) own
      · -- The tree without its parentheses has the same error.
        have bare : t.evaluate fact = .error e := by
          have back := anywhere t.span
          rwa [Tree.inSpan_inSpan, Tree.inSpan_span] at back
        have inside : ls <:+: ⟨.openParen, s⟩ :: (ls ++ [⟨.closeParen, s'⟩]) := ⟨[_], [_], rfl⟩
        exact (ih bare).within inside (Nat.le_succ n)
  | primary _ ih => exact ih fails
  | @minus n ls t s inner ih =>
      rcases Tree.evaluate_error_cases fails with own | ⟨⟨u, mem, operand⟩, -⟩
      · exact .itself (.minus s inner) own
      · cases List.mem_singleton.mp mem
        exact (ih operand).within (List.suffix_cons _ ls).isInfix (Nat.le_succ n)
  | single _ ih => exact ih fails
  | chain s left admits right low ihl ihr =>
      rcases Tree.evaluate_error_cases fails with own | ⟨⟨w, mem, operand⟩, -⟩
      · exact .itself (.chain s left admits right low) own
      · exact .operand mem operand ihl ihr
  | sum _ ih => exact ih fails
  | comparison s left compares right low ihl ihr =>
      rcases Tree.evaluate_error_cases fails with own | ⟨⟨w, mem, operand⟩, -⟩
      · exact .itself (.comparison s left compares right low) own
      · exact .operand mem operand ihl ihr

/-! ## Parts of a source -/

theorem Span.fragment_eq (s : Span) (source : String) :
    s.fragment source =
      if (s.of source.toList).isEmpty then source else String.ofList (s.of source.toList) := rfl

/-- What a message quotes of a source is a part of the source. -/
theorem Span.exists_fragment (s : Span) (source : String) :
    ∃ before after, source = before ++ s.fragment source ++ after := by
  rw [Span.fragment_eq]
  split
  · exact ⟨"", "", by simp⟩
  · refine ⟨String.ofList (source.toList.take s.start),
      String.ofList ((source.toList.drop s.start).drop (s.stop - s.start)), ?_⟩
    rw [← String.ofList_append, ← String.ofList_append, Span.of, List.append_assoc, List.take_append_drop,
      List.take_append_drop, String.ofList_toList]

/-- A span that goes from the start of a source to its end quotes all of it. -/
theorem Span.fragment_whole {s : Span} {source : String} (start : s.start = 0)
    (stop : source.toList.length ≤ s.stop) : s.fragment source = source := by
  rw [Span.fragment_eq]
  split
  · rfl
  · rw [Span.of, start, List.drop_zero, Nat.sub_zero, List.take_of_length_le stop, String.ofList_toList]

/-- **A part of an expression, cut out, is read as the same tree**, which then takes all of it. -/
theorem parse_fragment {source : String} {ls used : List Lexeme} {t : Tree} (lexed : lex source = .ok ls)
    (part : used <:+: ls) (spelled : Spells 63 .comparison used t) :
    ∃ node, Expression.parse (t.span.fragment source) = .ok ⟨t.span.fragment source, node⟩ ∧
      node.outline = t.outline ∧ node.span.fragment (t.span.fragment source) = t.span.fragment source := by
  obtain ⟨before, after, rfl⟩ := part
  obtain ⟨first, starts, start⟩ := spelled.starts
  obtain ⟨last, ends, stop⟩ := spelled.ends
  obtain ⟨again, lexed, moved⟩ := lex_part lexed starts ends
  rw [start, stop] at lexed
  have some : t.span.of source.toList ≠ [] := by
    intro none
    rw [none] at lexed
    cases lexed
    cases moved
    cases starts
  have fragment : t.span.fragment source = String.ofList (t.span.of source.toList) := by
    rw [Span.fragment_eq, if_neg (mt List.isEmpty_iff.mp some)]
  rw [fragment]
  -- The lexemes of the part have the tokens that the lexemes in the source have, so they are read as the same tree.
  have derives : Derives 63 .comparison (tokens again) t.outline := by
    have same := spelled.derives
    rwa [← moved, tokens, List.map_map] at same
  obtain ⟨node, parsed, shows⟩ := parse_of_derives lexed derives spelled.low
  refine ⟨node, parsed, shows.outline, ?_⟩
  -- The tree takes all of the part: it begins with the first lexeme and ends with the last one.
  obtain ⟨ls, lexed', spelled', -⟩ := spells_of_parse parsed
  cases lexed.symm.trans lexed'
  obtain ⟨first', starts', start'⟩ := spelled'.starts
  obtain ⟨last', ends', stop'⟩ := spelled'.ends
  rw [← moved, List.head?_map, starts'] at starts
  rw [← moved, List.getLast?_map, ends'] at ends
  have shiftedStart : first'.span.start + first.span.start = first.span.start :=
    congrArg (·.span.start) (Option.some.inj starts)
  have shiftedStop : last'.span.stop + first.span.start = last.span.stop :=
    congrArg (·.span.stop) (Option.some.inj ends)
  dsimp only at start' stop'
  refine Span.fragment_whole (by omega) ?_
  have length : (t.span.of source.toList).length ≤ t.span.stop - t.span.start := List.length_take_le _ _
  rw [String.toList_ofList]
  omega

/-! ## Errors of evaluation -/

/-- **What an error quotes is the culprit, and nothing else is needed to see it.** If an expression that was read from a
    source has an error on a fact, the fragment that the error quotes is a part of the source; it can be read, and
    evaluated on the same fact it has the same error, which then quotes all of it. -/
theorem fragment_is_culprit {source : String} {e : Expression} (parsed : Expression.parse source = .ok e)
    {fact : Fact} {err : ExpressionError} (fails : e.evaluate fact = .error err) :
    (∃ before after, source = before ++ err.fragment ++ after) ∧
    ∃ e', Expression.parse err.fragment = .ok e' ∧ e'.evaluate fact = .error err := by
  obtain ⟨ls, lexed, tree, rfl⟩ := parse_eq_ok parsed
  obtain ⟨located, failed, rfl⟩ := mapError_eq_error.mp fails
  have spelled : Spells 63 .comparison ls e.tree := parseTree_spells (readable_of_lex lexed) tree
  obtain ⟨used, u, part, spelledPart, own, span⟩ := spelled.culprit failed
  obtain ⟨node, parsed', outline, whole⟩ := parse_fragment lexed part spelledPart
  rw [span] at parsed' whole
  refine ⟨located.span.exists_fragment e.source, _, parsed', ?_⟩
  rw [evaluate, (own.of_outline outline).evaluate]
  show Except.error (ExpressionError.mk located.problem _) = .error (ExpressionError.mk located.problem _)
  rw [whole]

/-- A text is taken from a number, in parentheses and inside of a sum: the error quotes the parentheses with it. -/
theorem fragment_is_culprit_difference :
    let source := "c + (a - b) * 2"
    let fact : Fact := ⟨0, none, [("a", .number (.int 1 (by decide))), ("b", .string "x"), ("c", .bool true)]⟩
    let err : ExpressionError := ⟨.unsupported .sub "number" "string", "(a - b)"⟩
    ∃ e, Expression.parse source = .ok e ∧ e.evaluate fact = .error err ∧
      (∃ before after, source = before ++ err.fragment ++ after) ∧
      ∃ e', Expression.parse err.fragment = .ok e' ∧ e'.evaluate fact = .error err := by
  intro source fact err
  have failing : ∃ e, Expression.parse source = .ok e ∧ e.evaluate fact = .error err := by
    subst source fact err
    exact ⟨_, rfl, rfl⟩
  obtain ⟨e, parsed, fails⟩ := failing
  exact ⟨e, parsed, fails, fragment_is_culprit parsed fails⟩

end Rulebook.Expression
