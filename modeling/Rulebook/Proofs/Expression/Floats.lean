import Mathlib.Logic.Function.Iterate
import Rulebook.Proofs.Expression.Comparison
import Rulebook.Proofs.Expression.Height
import Rulebook.Proofs.Expression.Integers
import Rulebook.Proofs.Expression.Leaves

/-!
# `Rulebook.Proofs.Expression.Floats` — the floats that an expression meets, and why they compare

A literal may be so large that its float is infinite, and infinities could make a NaN, as in `1e999 - 1e999`. But the
result of an operator is finite or an error, and fields are finite. So what is not finite stands at a leaf of the tree, or
below minus signs, and these make no NaN either: a decimal is never read as one, and the negation of an infinity is the
other one. So every two numbers have places in the order of the floats, and a comparison of them has a truth value.

* `Tree.evaluate_float` — a float is finite, or a literal under minus signs
* `float_of_lex` — a float literal is the float nearest to a decimal
* `Tree.evaluate_ne_nan` — a tree whose literals are numbers is no NaN
* `combine_comparison` — two scalars that are numbers have a truth value under every comparison
* `never_nan` — **no part of an expression is a NaN**, and numbers compare
-/

namespace Rulebook

/-! ## Numbers -/

namespace Binary64

theorem neg_ne_nan {x : Binary64} (h : x ≠ nan) : x.neg ≠ nan := by
  cases x with
  | finite x => simp [neg]
  | infinite negative => simp [neg]
  | nan => exact absurd rfl h

/-- A decimal is read as a number. -/
theorem ofDecimal_ne_nan (negative : Bool) (d : Decimal) : ofDecimal negative d ≠ nan := by
  unfold ofDecimal
  dsimp only
  split
  · simp
  split
  · simp
  split
  · simp
  split
  · exact ofRatio_ne_nan negative _ _
  · exact ofRatio_ne_nan negative _ _

end Binary64

theorem Number.isFinite_toBinary64 (n : Number) : n.toBinary64.isFinite = true := by
  cases n with
  | int n isWord =>
      have small : n.natAbs ≤ Nat.pow 2 64 := by
        obtain ⟨above, below⟩ := isWord
        rw [show Nat.pow 2 64 = 0x10000000000000000 by decide]
        omega
      obtain ⟨x, finite⟩ := Binary64.exists_ofInt_eq_finite small
      rw [toBinary64, finite]
      rfl
  | float x => rfl

namespace Expression

/-! ## Values -/

/-- The float of a field is finite. -/
theorem isFinite_of_scalarOf {v : Value} {x : Binary64} (h : scalarOf v = .ok (.float x)) : x.isFinite = true := by
  rcases scalarOf_cases h with ⟨b, -, other⟩ | ⟨s, -, other⟩ | ⟨n, -, same⟩
  · cases other
  · cases other
  · cases same
    exact n.isFinite_toBinary64

/-- The float that a minus sign gives is the negation of a float. -/
theorem float_of_negate {v : Scalar} {x : Binary64} (h : negate v = .ok (.float x)) :
    ∃ y, v = .float y ∧ x = y.neg := by
  cases v with
  | int n =>
      rw [negate, checked] at h
      split at h <;> cases h
  | float y =>
      cases h
      exact ⟨y, rfl, rfl⟩
  | _ => cases h

/-- **The float of a tree is finite, or that of a literal** under the minus signs of the tree. -/
theorem Tree.evaluate_float {fact : Fact} {t : Tree} {x : Binary64} (h : t.evaluate fact = .ok (.float x)) :
    x.isFinite = true ∨ ∃ y span, t.body = .literal (.float y) span ∧ x = Binary64.neg^[t.signs] y := by
  induction t generalizing x with
  | literal v span =>
      cases h
      exact .inr ⟨x, span, rfl, rfl⟩
  | field p span =>
      obtain ⟨v, -, scalar⟩ := evaluate_field h
      exact .inl (isFinite_of_scalarOf scalar)
  | negation t span height ih =>
      rw [evaluate] at h
      obtain ⟨v, inner, negated⟩ := bind_eq_ok.mp h
      rw [located, mapError_eq_ok] at negated
      obtain ⟨y, rfl, rfl⟩ := float_of_negate negated
      rcases ih inner with finite | ⟨z, place, leaf, rfl⟩
      · refine .inl ?_
        cases y with
        | finite y => rfl
        | _ => cases finite
      · exact .inr ⟨z, place, leaf, (Function.iterate_succ_apply' Binary64.neg t.signs z).symm⟩
  | binary op l r span height =>
      obtain ⟨a, b, -, -, result⟩ := evaluate_binary h
      exact .inl ((arithmetic_of_combine result).2 x rfl)

/-! ## Literals -/

/-- A float among the tokens of a source is the one nearest to a decimal. -/
theorem float_of_lex {source : String} {ls : List Lexeme} (lexed : lex source = .ok ls) {x : Binary64}
    (mem : .literal (.float x) ∈ tokens ls) : ∃ d, x = .ofDecimal false d := by
  obtain ⟨l, inside, token⟩ := List.mem_map.mp mem
  obtain ⟨c, ds, more, found⟩ := mem_lexFrom lexed l inside
  rw [token] at found
  rcases scan_cases found with ⟨_, eq⟩ | ⟨d, eq⟩ | ⟨-, name, -⟩ | ⟨_, eq⟩ | ⟨_, eq⟩ | eq | eq
  case inr.inl =>
    cases eq
    exact ⟨d, rfl⟩
  case inr.inr.inl =>
    rcases nameToken_cases ((c :: ds).take (Text.dottedName (c :: ds))) with ⟨b, bool⟩ | path
    · cases name.trans bool
    · cases name.trans path
  all_goals cases eq

/-- The literal that the minus signs of a tree negate is a leaf of the tree. -/
theorem Tree.mem_leaves_of_body {t : Tree} {v : Scalar} {span : Span} (h : t.body = .literal v span) :
    .literal v ∈ t.outline.leaves := by
  induction t with
  | negation t s height ih => exact ih h
  | literal w s =>
      cases h
      exact List.mem_singleton_self _
  | _ => cases h

/-- The leaves of a part are leaves of the tree. -/
theorem Tree.leaves_subset_of_mem_parts {s t : Tree} (h : s ∈ t.parts) : s.outline.leaves ⊆ t.outline.leaves := by
  induction t with
  | literal v span =>
      cases List.mem_singleton.mp h
      exact List.Subset.refl _
  | field p span =>
      cases List.mem_singleton.mp h
      exact List.Subset.refl _
  | negation t span height ih =>
      rcases List.mem_append.mp h with inner | top
      · exact ih inner
      · cases List.mem_singleton.mp top
        exact List.Subset.refl _
  | binary op l r span height ihl ihr =>
      rcases List.mem_append.mp h with operand | top
      · rcases List.mem_append.mp operand with left | right
        · exact fun _ leaf => List.mem_append_left _ (ihl left leaf)
        · exact fun _ leaf => List.mem_append_right _ (ihr right leaf)
      · cases List.mem_singleton.mp top
        exact List.Subset.refl _

/-- **A tree whose literals are numbers has no NaN for its value.** -/
theorem Tree.evaluate_ne_nan {t : Tree} (numbers : .literal (.float .nan) ∉ t.outline.leaves) (fact : Fact) :
    t.evaluate fact ≠ .ok (.float .nan) := by
  intro h
  rcases evaluate_float h with finite | ⟨y, span, leaf, negated⟩
  · cases finite
  · have number : y ≠ .nan := by
      rintro rfl
      exact numbers (mem_leaves_of_body leaf)
    have signed : Binary64.neg^[t.signs] y ≠ .nan :=
      Function.Iterate.rec (· ≠ Binary64.nan) number (fun _ h => Binary64.neg_ne_nan h) t.signs
    exact signed negated.symm

/-! ## Comparisons -/

theorem BinaryOp.exists_operator {op : BinaryOp} (h : op.isComparison = true) : ∃ o : Operator, o.toBinary = op := by
  cases op with
  | eq => exact ⟨.eq, rfl⟩
  | ne => exact ⟨.ne, rfl⟩
  | lt => exact ⟨.lt, rfl⟩
  | gt => exact ⟨.gt, rfl⟩
  | le => exact ⟨.le, rfl⟩
  | ge => exact ⟨.ge, rfl⟩
  | _ => cases h

/-- A number that is no NaN is none among the floats either. -/
theorem ne_nan_of_toBinary64? {a : Scalar} {x : Binary64} (number : a.toBinary64? = some x)
    (h : a ≠ .float .nan) : x ≠ .nan := by
  cases a with
  | int n =>
      rw [← Option.some.inj number]
      exact Binary64.ofInt_ne_nan n.toInt
  | float y =>
      cases number
      exact fun eq => h (congrArg Scalar.float eq)
  | _ => cases number

/-- **Two numbers have a truth value under every comparison**: that of their places in the order of the floats. -/
theorem combine_comparison {a b : Scalar} {x y : Binary64} (left : a.toBinary64? = some x)
    (right : b.toBinary64? = some y) (hx : x ≠ .nan) (hy : y ≠ .nan) (op : Operator) :
    combine op.toBinary a b = .ok (.bool (op.admits (compare x.rank y.rank))) := by
  obtain ⟨order, equals⟩ := order?_of_toBinary64? left right
  have places := Binary64.compare?_eq_rank hx hy
  have same : equal a b = (compare x.rank y.rank).isEq := by
    rw [equals, Binary64.eq, places]
    cases compare x.rank y.rank <;> rfl
  rw [combine, arithmetic_of_order (order.trans places) same op]
  rfl

/-- **No part of an expression is a NaN, and numbers compare.** Whatever the fact is, none of the trees in the tree of an
    expression has NaN for its value, and a comparison among them, of two trees whose values are numbers, has a truth
    value: that of the places of the two numbers in the order of the floats. -/
theorem never_nan {source : String} {e : Expression} (parsed : Expression.parse source = .ok e) (fact : Fact) :
    (∀ t ∈ e.tree.parts, t.evaluate fact ≠ .ok (.float .nan)) ∧
    ∀ op l r span height, .binary op l r span height ∈ e.tree.parts → op.isComparison = true →
      ∀ a b x y, l.evaluate fact = .ok a → r.evaluate fact = .ok b → a.toBinary64? = some x → b.toBinary64? = some y →
        ∃ o : Operator, o.toBinary = op ∧
          (Tree.binary op l r span height).evaluate fact = .ok (.bool (o.admits (compare x.rank y.rank))) := by
  obtain ⟨ls, lexed, spelled, -⟩ := spells_of_parse parsed
  have numbers : .literal (.float .nan) ∉ e.tree.outline.leaves := by
    rw [spelled.derives.leaves_eq]
    intro leaf
    obtain ⟨d, nan⟩ := float_of_lex lexed (List.mem_filter.mp leaf).1
    exact Binary64.ofDecimal_ne_nan false d nan.symm
  have never : ∀ {t : Tree}, t.outline.leaves ⊆ e.tree.outline.leaves → t.evaluate fact ≠ .ok (.float .nan) :=
    fun inside => Tree.evaluate_ne_nan (fun leaf => numbers (inside leaf)) fact
  have number : ∀ {t : Tree} {a : Scalar} {x : Binary64}, t.outline.leaves ⊆ e.tree.outline.leaves →
      t.evaluate fact = .ok a → a.toBinary64? = some x → x ≠ .nan :=
    fun inside value float => ne_nan_of_toBinary64? float fun nan => never inside (nan ▸ value)
  refine ⟨fun t part => never (Tree.leaves_subset_of_mem_parts part), ?_⟩
  intro op l r span height part comparison a b x y left right float float'
  obtain ⟨o, rfl⟩ := BinaryOp.exists_operator comparison
  obtain ⟨leavesLeft, leavesRight⟩ := List.append_subset.mp (Tree.leaves_subset_of_mem_parts part)
  refine ⟨o, rfl, ?_⟩
  rw [Tree.evaluate, left, right]
  exact congrArg (located span)
    (combine_comparison float float' (number leavesLeft left float) (number leavesRight right float') o)

/-- An infinity under minus signs against a field: it is no NaN, and less than the field. -/
theorem never_nan_infinite :
    let fact : Fact := ⟨0, none, [("x", .number (.int 7 (by decide)))]⟩
    ∃ e l r span height, Expression.parse "---1e999 < x" = .ok e ∧ .binary .lt l r span height ∈ e.tree.parts ∧
      l.evaluate fact = .ok (.float (.infinite true)) ∧ r.evaluate fact = .ok (.int 7) ∧
      l.evaluate fact ≠ .ok (.float .nan) ∧ ∃ o : Operator, o.toBinary = .lt ∧
        (Tree.binary .lt l r span height).evaluate fact =
          .ok (.bool (o.admits (compare (Binary64.infinite true).rank (Binary64.ofInt 7).rank))) := by
  intro fact
  have read : ∃ e l r span height, Expression.parse "---1e999 < x" = .ok e ∧
      e.tree = .binary .lt l r span height ∧ l ∈ e.tree.parts ∧
      l.evaluate fact = .ok (.float (.infinite true)) ∧ r.evaluate fact = .ok (.int 7) := by
    subst fact
    exact ⟨_, _, _, _, _, rfl, rfl, by decide +kernel, rfl, rfl⟩
  obtain ⟨e, l, r, span, height, parsed, tree, part, left, right⟩ := read
  have top : .binary .lt l r span height ∈ e.tree.parts := by
    rw [tree]
    exact List.mem_append_right _ (List.mem_singleton_self _)
  obtain ⟨numbers, comparisons⟩ := never_nan parsed fact
  exact ⟨e, l, r, span, height, parsed, top, left, right, numbers l part,
    comparisons .lt l r span height top rfl _ _ _ _ left right rfl rfl⟩

end Expression

end Rulebook
