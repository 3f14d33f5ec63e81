import Rulebook.Proofs.Comparison
import Rulebook.Proofs.Expression.Parsing
import Rulebook.Proofs.Expression.Spacing
import Rulebook.Rule.Compiled

/-!
# `Rulebook.Proofs.Expression.Comparison` — expressions and conditions compare alike, up to rounding

A condition compares two integers exactly, an expression compares the floats nearest to them. Everything else is
compared in the same way, so the two differ only on integers that are rounded to one float: an expression finds
them equal, a condition finds them in their order.

* `Merges` — two integers that an operator tells apart, but not the floats nearest to them;
* `arithmetic_holdsOn` — the two comparisons of values agree exactly where there is no such pair;
* `lex_comparison`, `parse_comparison` — a path, an operator and a path are read as that comparison;
* `compares_alike_iff` — **an expression and a condition** that compare two fields agree exactly there.
-/

namespace Rulebook

/-! ## Operators -/

/-- The operator of expressions with the same text. -/
def Operator.toBinary : Operator → Expression.BinaryOp
  | eq => .eq
  | ne => .ne
  | lt => .lt
  | gt => .gt
  | le => .le
  | ge => .ge

theorem Operator.parse_symbol (op : Operator) : Operator.parse op.symbol = some op := by
  cases op <;> decide

theorem Operator.isComparison_toBinary (op : Operator) : op.toBinary.isComparison = true := by
  cases op <;> rfl

/-- Two integers that an operator tells apart from equal ones, while the floats nearest to them are equal. -/
def Merges (op : Operator) (v w : Value) : Prop :=
  ∃ m n hm hn, v = .number (.int m hm) ∧ w = .number (.int n hn) ∧
    (Binary64.ofInt m).eq (Binary64.ofInt n) = true ∧ op.admits (compare m n) ≠ op.admits .eq

namespace Expression

/-! ## Values -/

/-- Where two scalars have places in an order, an expression goes by them. -/
theorem arithmetic_of_order {a b : Scalar} {o : Ordering} (order : order? a b = some o)
    (equals : equal a b = o.isEq) (op : Operator) : arithmetic op.toBinary a b = .ok (.bool (op.admits o)) := by
  cases op <;> simp only [Operator.toBinary, arithmetic, ordered, order, equals] <;> cases o <;> rfl

/-- An expression and a condition agree on values that they find in the same order, or equal alike. -/
theorem holdsOn_of_alike {v w : Value} {a b : Scalar} (orders : order? a b = v.order? w)
    (equals : equal a b = v.equals w) {op : Operator} {r : Bool}
    (h : arithmetic op.toBinary a b = .ok (.bool r)) : op.holdsOn v w = r := by
  cases op with
  | eq =>
      cases h
      exact equals.symm
  | ne =>
      cases h
      rw [equals]
      rfl
  | _ =>
      -- Without a place there is no truth value; with one both sides go by it.
      simp only [Operator.toBinary, arithmetic, ordered, orders] at h
      simp only [Operator.holdsOn]
      cases place : v.order? w with
      | none =>
          rw [place] at h
          cases h
      | some o =>
          rw [place] at h
          cases h
          cases o <;> rfl

/-- The scalar of a number is that number as a float. -/
theorem toBinary64?_of_scalarOf {n : Number} {a : Scalar} (h : scalarOf (.number n) = .ok a) :
    a.toBinary64? = some n.toBinary64 := by
  cases n with
  | int n isWord =>
      simp only [scalarOf] at h
      split at h
      · rename_i fits
        cases h
        -- The integer comes back from its 64 bits.
        rw [Scalar.toBinary64?, fits.toInt_ofInt]
        rfl
      · cases h
        rfl
  | float x =>
      cases h
      rfl

/-- What the values are that have a scalar. -/
theorem scalarOf_cases {v : Value} {a : Scalar} (h : scalarOf v = .ok a) :
    (∃ b, v = .bool b ∧ a = .bool b) ∨ (∃ s, v = .string s ∧ a = .string s) ∨
      ∃ n, v = .number n ∧ a.toBinary64? = some n.toBinary64 := by
  cases v with
  | bool b =>
      cases h
      exact .inl ⟨b, rfl, rfl⟩
  | string s =>
      cases h
      exact .inr (.inl ⟨s, rfl, rfl⟩)
  | number n => exact .inr (.inr ⟨n, rfl, toBinary64?_of_scalarOf h⟩)
  | null => cases h
  | array items => cases h
  | object fields => cases h

/-- Numbers are compared as floats. -/
theorem order?_of_toBinary64? {a b : Scalar} {x y : Binary64} (ha : a.toBinary64? = some x)
    (hb : b.toBinary64? = some y) : order? a b = x.compare? y ∧ equal a b = x.eq y := by
  unfold order? equal
  rw [ha, hb]
  refine ⟨?_, rfl⟩
  split
  · -- Two strings are no numbers.
    cases ha
  · simp only [ha, hb]

/-- A number and something else have no places in an order, and they differ. -/
theorem order?_mixed {a b : Scalar} (ha : a.toBinary64? ≠ none) (hb : b.toBinary64? = none) :
    (order? a b = none ∧ equal a b = false) ∧ order? b a = none ∧ equal b a = false := by
  cases b with
  | int n => cases hb
  | float y => cases hb
  | string t =>
      cases a with
      | int m => exact ⟨⟨rfl, rfl⟩, rfl, rfl⟩
      | float x => exact ⟨⟨rfl, rfl⟩, rfl, rfl⟩
      | _ => exact absurd rfl ha
  | bool d =>
      cases a with
      | int m => exact ⟨⟨rfl, rfl⟩, rfl, rfl⟩
      | float x => exact ⟨⟨rfl, rfl⟩, rfl, rfl⟩
      | _ => exact absurd rfl ha

/-- Values that are not both integers are found in the same order by both sides, and equal alike. -/
theorem alike_of_not_integers {v w : Value} {a b : Scalar} (ha : scalarOf v = .ok a) (hb : scalarOf w = .ok b)
    (other : ∀ i hi j hj, v = .number (.int i hi) → w ≠ .number (.int j hj)) :
    order? a b = v.order? w ∧ equal a b = v.equals w := by
  rcases scalarOf_cases ha with ⟨c, rfl, rfl⟩ | ⟨s, rfl, rfl⟩ | ⟨m, rfl, left⟩ <;>
    rcases scalarOf_cases hb with ⟨d, rfl, rfl⟩ | ⟨t, rfl, rfl⟩ | ⟨n, rfl, right⟩
  case inl.inl => exact ⟨rfl, by cases c <;> cases d <;> rfl⟩
  case inl.inr.inl => exact ⟨rfl, rfl⟩
  case inl.inr.inr => exact (order?_mixed (by rw [right]; exact nofun) rfl).2
  case inr.inl.inl => exact ⟨rfl, rfl⟩
  case inr.inl.inr.inl =>
    refine ⟨rfl, ?_⟩
    show decide (Scalar.string s = Scalar.string t) = (s == t)
    rw [Bool.eq_iff_iff, decide_eq_true_iff, beq_iff_eq, Scalar.string.injEq]
  case inr.inl.inr.inr => exact (order?_mixed (by rw [right]; exact nofun) rfl).2
  case inr.inr.inl => exact (order?_mixed (by rw [left]; exact nofun) rfl).1
  case inr.inr.inr.inl => exact (order?_mixed (by rw [left]; exact nofun) rfl).1
  case inr.inr.inr.inr =>
    -- Of two numbers that are not both integers, a condition compares the floats as well.
    rw [(order?_of_toBinary64? left right).1, (order?_of_toBinary64? left right).2]
    cases m with
    | int i hi =>
        cases n with
        | int j hj => exact absurd rfl (other i hi j hj rfl)
        | float y => exact ⟨rfl, rfl⟩
    | float x => exact ⟨rfl, rfl⟩

/-- Two integers are compared alike unless rounding merges them. -/
theorem integers_alike_iff {i j : Int} (hi : IsWord i) (hj : IsWord j) {a b : Scalar}
    (ha : scalarOf (.number (.int i hi)) = .ok a) (hb : scalarOf (.number (.int j hj)) = .ok b) {op : Operator}
    {r : Bool} (h : arithmetic op.toBinary a b = .ok (.bool r)) :
    op.holdsOn (.number (.int i hi)) (.number (.int j hj)) = r ↔
      ¬ Merges op (.number (.int i hi)) (.number (.int j hj)) := by
  have merges : Merges op (.number (.int i hi)) (.number (.int j hj)) ↔
      (Binary64.ofInt i).eq (Binary64.ofInt j) = true ∧ op.admits (compare i j) ≠ op.admits .eq := by
    constructor
    · rintro ⟨m, n, hm, hn, left, right, same⟩
      cases left
      cases right
      exact same
    · intro same
      exact ⟨i, j, hi, hj, rfl, rfl, same⟩
  have exact : op.holdsOn (.number (.int i hi)) (.number (.int j hj)) = op.admits (compare i j) :=
    Operator.holdsOn_of_order rfl (Value.equals_of_order rfl) op
  obtain ⟨order, equals⟩ := order?_of_toBinary64? (toBinary64?_of_scalarOf ha) (toBinary64?_of_scalarOf hb)
  rw [Number.toBinary64, Number.toBinary64] at order equals
  rw [Binary64.compare?_ofInt] at order
  cases same : (Binary64.ofInt i).eq (Binary64.ofInt j) with
  | true =>
      -- For the expression the two are equal, whatever their order is.
      rw [same, if_pos rfl] at order
      rw [arithmetic_of_order order (equals.trans same) op] at h
      cases h
      rw [exact, merges, same]
      simp
  | false =>
      -- For the expression they stand as they do for the condition.
      rw [same, if_neg Bool.false_ne_true] at order
      have different : equal a b = (compare i j).isEq := by
        rw [equals, Binary64.eq, Binary64.compare?_ofInt, same, if_neg Bool.false_ne_true]
        cases compare i j <;> rfl
      rw [arithmetic_of_order order different op] at h
      cases h
      rw [exact, merges, same]
      simp

/-- **Expressions and conditions compare values alike unless rounding merges them**, as far as an expression
    compares them at all. -/
theorem arithmetic_holdsOn {v w : Value} {a b : Scalar} (ha : scalarOf v = .ok a) (hb : scalarOf w = .ok b)
    {op : Operator} {r : Bool} (h : arithmetic op.toBinary a b = .ok (.bool r)) :
    op.holdsOn v w = r ↔ ¬ Merges op v w := by
  by_cases integers : ∃ i hi j hj, v = .number (.int i hi) ∧ w = .number (.int j hj)
  · obtain ⟨i, hi, j, hj, rfl, rfl⟩ := integers
    exact integers_alike_iff hi hj ha hb h
  · obtain ⟨orders, equals⟩ := alike_of_not_integers ha hb fun i hi j hj left right =>
      integers ⟨i, hi, j, hj, left, right⟩
    refine iff_of_true (holdsOn_of_alike orders equals h) ?_
    rintro ⟨i, j, hi, hj, left, right, -⟩
    exact integers ⟨i, hi, j, hj, left, right⟩

/-! ## Sources -/

/-- The text of an operator is one token. -/
theorem hasTokens_symbol (op : Operator) : HasTokens op.symbol.toList [.op op.toBinary] := by
  cases op <;> exact ⟨_, rfl, rfl⟩

/-- A text that is one path token is read as the path with that text. -/
theorem path_of_lex {source name : String} {span : Span} (h : lex source = .ok [⟨.path name, span⟩]) {x : Path}
    (text : x.text = name) : Path.parse source = .ok x := by
  obtain ⟨y, named, -, parsed⟩ := parse_of_lex_path h
  rw [← text, Path.parse_text] at named
  cases named
  exact parsed

section Source

variable {p q s t : String} {i j : Span} (left : lex p = .ok [⟨.path s, i⟩]) (right : lex q = .ok [⟨.path t, j⟩])
  (op : Operator)

include left right

/-- Two paths with an operator between them are three tokens. -/
theorem lex_comparison :
    ∃ ls, lex (p ++ " " ++ op.symbol ++ " " ++ q) = .ok ls ∧
      tokens ls = [.path s] ++ .op op.toBinary :: [.path t] := by
  have chars : (p ++ " " ++ op.symbol ++ " " ++ q).toList =
      p.toList ++ ' ' :: (op.symbol.toList ++ ' ' :: q.toList) := by
    simp only [String.toList_append, List.append_assoc]
    rfl
  have first : HasTokens p.toList [.path s] := ⟨_, left, rfl⟩
  have last : HasTokens q.toList [.path t] := ⟨_, right, rfl⟩
  have gap : isGap ' ' = true := by decide
  rw [lex, chars]
  exact first.append_gap gap ((hasTokens_symbol op).append_gap gap last)

/-- Two paths with an operator between them are read as the comparison of the two fields. -/
theorem parse_comparison :
    ∃ x y i j span height,
      Expression.parse (p ++ " " ++ op.symbol ++ " " ++ q) =
        .ok ⟨p ++ " " ++ op.symbol ++ " " ++ q, .binary op.toBinary (.field x i) (.field y j) span height⟩ ∧
      x.text = s ∧ y.text = t := by
  obtain ⟨ls, lexed, three⟩ := lex_comparison left right op
  generalize p ++ " " ++ op.symbol ++ " " ++ q = source at lexed
  have sum : ∀ name, Derives 63 (.chain .sum) [.path name] (.leaf (.path name)) := fun name =>
    .single (.single (.primary (.operand trivial)))
  have derives : Derives 63 .comparison (tokens ls)
      (.binary op.toBinary (.leaf (.path s)) (.leaf (.path t))) := by
    rw [three]
    exact .comparison (sum s) op.isComparison_toBinary (sum t)
  have low : (Outline.binary op.toBinary (.leaf (.path s)) (.leaf (.path t))).Low maxHeight :=
    ⟨trivial, trivial, by simp [Outline.height, maxHeight]⟩
  obtain ⟨node, parsed, shows⟩ := parse_of_derives lexed derives low
  obtain ⟨l, r, span, height, rfl, outlineLeft, outlineRight⟩ := Tree.outline_eq_binary shows.outline
  obtain ⟨x, i, rfl, nameLeft⟩ := Tree.outline_eq_path outlineLeft
  obtain ⟨y, j, rfl, nameRight⟩ := Tree.outline_eq_path outlineRight
  exact ⟨x, y, i, j, span, height, parsed, nameLeft, nameRight⟩

/-- A condition that compares two paths reads the same two fields. -/
theorem compile_reference {x y : Path} (nameLeft : x.text = s) (nameRight : y.text = t) (rule : String)
    (place : Place) :
    (FieldTest.reference p op.symbol q).compile rule place = .ok (.test x op (.field y)) := by
  have first : pathAt rule place p = .ok x := by
    rw [pathAt, path_of_lex left nameLeft]
    rfl
  have second : pathAt rule place q = .ok y := by
    rw [pathAt, path_of_lex right nameRight]
    rfl
  unfold FieldTest.reference FieldTest.compile
  simp only [op.parse_symbol, first, second]
  rfl

end Source

/-! ## Facts -/

/-- A field has the value of an expression if it has a scalar. -/
theorem Tree.evaluate_field {fact : Fact} {x : Path} {span : Span} {a : Scalar}
    (h : (Tree.field x span).evaluate fact = .ok a) : ∃ v, fact.get x = some v ∧ scalarOf v = .ok a := by
  rw [Tree.evaluate, located, mapError_eq_ok] at h
  cases found : fact.get x with
  | none =>
      rw [found] at h
      cases h
  | some v =>
      rw [found] at h
      exact ⟨v, rfl, h⟩

/-- The value of an operator is the result of its arithmetic, which is finite if it is a float. -/
theorem arithmetic_of_combine {op : BinaryOp} {a b v : Scalar} (h : combine op a b = .ok v) :
    arithmetic op a b = .ok v ∧ ∀ x, v = .float x → x.isFinite = true := by
  obtain ⟨c, result, checked⟩ := bind_eq_ok.mp h
  cases c with
  | float y =>
      dsimp only at checked
      split at checked
      · rename_i finite
        cases checked
        exact ⟨result, fun x same => Scalar.float.inj same ▸ finite⟩
      · cases checked
  | _ =>
      cases checked
      exact ⟨result, by simp⟩

/-- A value of two trees under an operator is that of their values. -/
theorem Tree.evaluate_binary {fact : Fact} {op : BinaryOp} {l r : Tree} {span : Span} {height : Nat} {v : Scalar}
    (h : (Tree.binary op l r span height).evaluate fact = .ok v) :
    ∃ a b, l.evaluate fact = .ok a ∧ r.evaluate fact = .ok b ∧ combine op a b = .ok v := by
  rw [Tree.evaluate] at h
  obtain ⟨a, left, h⟩ := bind_eq_ok.mp h
  obtain ⟨b, right, h⟩ := bind_eq_ok.mp h
  rw [located, mapError_eq_ok] at h
  exact ⟨a, b, left, right, h⟩

/-- **Expressions and conditions compare fields alike unless rounding merges them.** Of two texts that are each
    one path, and any of the six operators, both the expression and the condition can be made; on every fact on
    which the expression is true or false, the condition has the same answer if and only if the two values are
    not two integers that the operator tells apart and rounding does not. -/
theorem compares_alike_iff {p q s t : String} {i j : Span} (left : lex p = .ok [⟨.path s, i⟩])
    (right : lex q = .ok [⟨.path t, j⟩]) (op : Operator) (rule : String) (place : Place) :
    ∃ e condition x y, Expression.parse (p ++ " " ++ op.symbol ++ " " ++ q) = .ok e ∧
      (FieldTest.reference p op.symbol q).compile rule place = .ok condition ∧
      Path.parse p = .ok x ∧ Path.parse q = .ok y ∧
      ∀ fact b, e.evaluate fact = .ok (.bool b) →
        ∃ v w, fact.get x = some v ∧ fact.get y = some w ∧ (condition.holds fact = b ↔ ¬ Merges op v w) := by
  obtain ⟨x, y, i', j', span, height, parsed, nameLeft, nameRight⟩ := parse_comparison left right op
  refine ⟨_, _, x, y, parsed, compile_reference left right op nameLeft nameRight rule place,
    path_of_lex left nameLeft, path_of_lex right nameRight, ?_⟩
  intro fact b h
  rw [evaluate, mapError_eq_ok] at h
  obtain ⟨a, c, first, second, result⟩ := Tree.evaluate_binary h
  obtain ⟨v, foundLeft, ha⟩ := Tree.evaluate_field first
  obtain ⟨w, foundRight, hc⟩ := Tree.evaluate_field second
  refine ⟨v, w, foundLeft, foundRight, ?_⟩
  have holds : (Predicate.test x op (.field y)).holds fact = op.holdsOn v w := by
    rw [Predicate.holds, Operand.value?, foundLeft, foundRight, Operator.holds]
  rw [holds]
  exact arithmetic_holdsOn ha hc (arithmetic_of_combine result).1

/-- The comparison of two names, on facts of any kind. -/
theorem compares_alike_iff_names :
    lex "a" = .ok [⟨.path "a", ⟨0, 1⟩⟩] ∧ lex "b" = .ok [⟨.path "b", ⟨0, 1⟩⟩] ∧
    ∃ e condition x y, Expression.parse "a <= b" = .ok e ∧
      (FieldTest.reference "a" "<=" "b").compile "r" (.condition [0]) = .ok condition ∧
      Path.parse "a" = .ok x ∧ Path.parse "b" = .ok y ∧
      ∀ fact b, e.evaluate fact = .ok (.bool b) →
        ∃ v w, fact.get x = some v ∧ fact.get y = some w ∧ (condition.holds fact = b ↔ ¬ Merges .le v w) := by
  have left : lex "a" = .ok [⟨.path "a", ⟨0, 1⟩⟩] := rfl
  have right : lex "b" = .ok [⟨.path "b", ⟨0, 1⟩⟩] := rfl
  have text : "a" ++ " " ++ Operator.le.symbol ++ " " ++ "b" = "a <= b" := by decide
  have alike := compares_alike_iff left right .le "r" (.condition [0])
  rw [text] at alike
  exact ⟨left, right, alike⟩

/-- A fact with two integers that are rounded to one float. -/
def mergingFact : Fact :=
  ⟨0, none, [("a", .number (.int 9007199254740992 (by decide))),
    ("b", .number (.int 9007199254740993 (by decide)))]⟩

/-- **Rounding sets the two apart**: an expression finds two integers equal that a condition does not. -/
theorem compares_apart :
    ∃ e condition, lex "a" = .ok [⟨.path "a", ⟨0, 1⟩⟩] ∧ lex "b" = .ok [⟨.path "b", ⟨0, 1⟩⟩] ∧
      Expression.parse ("a" ++ " " ++ Operator.eq.symbol ++ " " ++ "b") = .ok e ∧
      (FieldTest.reference "a" Operator.eq.symbol "b").compile "r" (.condition [0]) = .ok condition ∧
      e.evaluate mergingFact = .ok (.bool true) ∧ condition.holds mergingFact = false := by
  let x : Path := ⟨⟨"a", by decide⟩, []⟩
  let y : Path := ⟨⟨"b", by decide⟩, []⟩
  let e : Expression := ⟨"a == b", .binary .eq (.field x ⟨0, 1⟩) (.field y ⟨5, 6⟩) ⟨0, 6⟩ 2⟩
  have text : "a" ++ " " ++ Operator.eq.symbol ++ " " ++ "b" = "a == b" := by decide
  have compiled : (FieldTest.reference "a" Operator.eq.symbol "b").compile "r" (.condition [0]) =
      .ok (.test x .eq (.field y)) := compile_reference rfl rfl .eq rfl rfl "r" (.condition [0])
  have equal : (e.evaluate mergingFact).toOption = some (.bool true) := by decide +kernel
  refine ⟨e, .test x .eq (.field y), rfl, rfl, by rw [text]; rfl, compiled, ?_, by decide +kernel⟩
  cases value : e.evaluate mergingFact with
  | error problem =>
      rw [value] at equal
      cases equal
  | ok v =>
      rw [value] at equal
      cases equal
      rfl

end Expression

end Rulebook
