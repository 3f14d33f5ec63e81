import Rulebook.Comparison
import Rulebook.Proofs.Binary64

/-!
# `Rulebook.Proofs.Comparison` — how the six operators fit together

On two operands the operators go by one fact about them: by their places in an order if they are two numbers or two
strings, and otherwise by whether they are equal. `Operator.holds_cases` says so once, for both directions of a
comparison, and all that ties the operators together is read off it.

Two numbers have their places as two integers have: as the integers that they are, or else as the ranks of the floats
nearest to them.

* `Operator.admits`, `Operator.relates` — an operator on places in an order, and on integers
* `Operator.holds_cases` — what the operators go by
* `Number.exists_order`, `Operator.holds_numbers_iff` — two numbers stand as two integers do
* `Value.same_comm`, `Value.same_trans` — equality of values has no direction and passes on
* `Operator.Coherent`, `Operator.operators_cohere` — **what ties the six operators together**
-/

namespace Rulebook

/-! ## Operators -/

namespace Operator

/-- Whether an operator admits a place in an order. -/
def admits : Operator → Ordering → Bool
  | eq => Ordering.isEq
  | ne => Ordering.isNe
  | lt => Ordering.isLT
  | gt => Ordering.isGT
  | le => Ordering.isLE
  | ge => Ordering.isGE

/-- What an operator says of values in no order, by whether they are equal. -/
def admitsUnordered (equal : Bool) : Operator → Bool
  | eq => equal
  | ne => !equal
  | _ => false

/-- What an operator says of two integers. -/
def relates : Operator → Int → Int → Prop
  | eq, i, j => i = j
  | ne, i, j => i ≠ j
  | lt, i, j => i < j
  | gt, i, j => i > j
  | le, i, j => i ≤ j
  | ge, i, j => i ≥ j

/-- Where two values have places in an order, a condition goes by them. -/
theorem holdsOn_of_order {v w : Value} {o : Ordering} (order : v.order? w = some o)
    (equals : v.equals w = o.isEq) (op : Operator) : op.holdsOn v w = op.admits o := by
  cases op <;> simp only [holdsOn, order, equals] <;> cases o <;> rfl

/-- Where two values have no places in an order, a condition goes by whether they are equal. -/
theorem holdsOn_of_unordered {v w : Value} (unordered : v.order? w = none) (op : Operator) :
    op.holdsOn v w = op.admitsUnordered (v.equals w) := by
  cases op <;> simp only [holdsOn, unordered] <;> rfl

/-- An operator admits the place of an integer relative to another one if it says so of the two. -/
theorem admits_compare_iff (op : Operator) (i j : Int) : op.admits (compare i j) = true ↔ op.relates i j := by
  cases op with
  | eq => exact Ordering.isEq_iff_eq_eq.trans Int.compare_eq_eq
  | ne => exact Ordering.isNe_iff_ne_eq.trans (not_congr Int.compare_eq_eq)
  | lt => exact Ordering.isLT_iff_eq_lt.trans Int.compare_eq_lt
  | gt => exact Ordering.isGT_iff_eq_gt.trans Int.compare_eq_gt
  | le => exact Int.isLE_compare
  | ge => exact Int.isGE_compare

end Operator

/-! ## Numbers -/

namespace Number

/-- The place of a number among the floats. -/
def rank (n : Number) : Int := n.toBinary64.rank

theorem toBinary64_ne_nan (n : Number) : n.toBinary64 ≠ .nan := by
  cases n with
  | int n isWord => exact Binary64.ofInt_ne_nan n
  | float x => exact nofun

theorem rank_of_toInt? {n : Number} {i : Int} (h : n.toInt? = some i) : n.rank = (Binary64.ofInt i).rank := by
  cases n with
  | int n isWord =>
      cases h
      rfl
  | float x => cases h

/-- Two numbers are integers, or one of them is a float. -/
theorem toInt?_cases (m n : Number) :
    (∃ i j, m.toInt? = some i ∧ n.toInt? = some j) ∨ m.toInt? = none ∨ n.toInt? = none := by
  cases m.toInt? with
  | none => exact .inr (.inl rfl)
  | some i =>
      cases n.toInt? with
      | none => exact .inr (.inr rfl)
      | some j => exact .inl ⟨i, j, rfl, rfl⟩

/-- Two integers are compared as such. -/
theorem order_of_integers {m n : Number} {i j : Int} (hm : m.toInt? = some i) (hn : n.toInt? = some j) :
    m.order n = some (compare i j) := by
  rw [order, hm, hn]

/-- Other numbers are compared by rank. -/
theorem order_of_rounded {m n : Number} (float : m.toInt? = none ∨ n.toInt? = none) :
    m.order n = some (compare m.rank n.rank) := by
  rw [order]
  split
  · rename_i hm hn
    rcases float with none | none
    · cases hm.symm.trans none
    · cases hn.symm.trans none
  · exact Binary64.compare?_eq_rank m.toBinary64_ne_nan n.toBinary64_ne_nan

/-- **Two numbers stand as two integers do**, in both directions. -/
theorem exists_order (m n : Number) :
    ∃ i j : Int, m.order n = some (compare i j) ∧ n.order m = some (compare j i) := by
  rcases m.toInt?_cases n with ⟨i, j, hi, hj⟩ | float
  · exact ⟨i, j, order_of_integers hi hj, order_of_integers hj hi⟩
  · exact ⟨m.rank, n.rank, order_of_rounded float, order_of_rounded float.symm⟩

theorem same_comm (m n : Number) : m.same n = n.same m := by
  cases m with
  | int i hi =>
      cases n with
      | int j hj => exact Bool.beq_comm
      | float y => rfl
  | float x =>
      cases n with
      | int j hj => rfl
      | float y => exact Bool.beq_comm

theorem same_trans {l m n : Number} (h : l.same m = true) (k : m.same n = true) : l.same n = true := by
  cases m with
  | int j hj =>
      cases l with
      | float x => cases h
      | int i hi =>
          cases n with
          | float z => cases k
          | int k' hk => exact beq_iff_eq.mpr ((eq_of_beq h).trans (eq_of_beq k))
  | float y =>
      cases l with
      | int i hi => cases h
      | float x =>
          cases n with
          | int k' hk => cases k
          | float z => exact beq_iff_eq.mpr ((eq_of_beq h).trans (eq_of_beq k))

end Number

/-! ## Values -/

namespace Value

mutual

theorem same_comm : (v w : Value) → v.same w = w.same v
  | .null, w => by cases w <;> rfl
  | .bool a, w => by
      cases w with
      | bool b => exact Bool.beq_comm
      | _ => rfl
  | .number m, w => by
      cases w with
      | number n => exact m.same_comm n
      | _ => rfl
  | .string s, w => by
      cases w with
      | string t => exact Bool.beq_comm
      | _ => rfl
  | .array xs, w => by
      cases w with
      | array ys => exact sameItems_comm xs ys
      | _ => rfl
  | .object xs, w => by
      cases w with
      | object ys => exact sameFields_comm xs ys
      | _ => rfl

theorem sameItems_comm : (xs ys : List Value) → sameItems xs ys = sameItems ys xs
  | [], ys => by cases ys <;> rfl
  | x :: xs, ys => by
      cases ys with
      | nil => rfl
      | cons y ys => rw [sameItems, sameItems, same_comm x y, sameItems_comm xs ys]

theorem sameFields_comm : (xs ys : List (String × Value)) → sameFields xs ys = sameFields ys xs
  | [], ys => by cases ys <;> rfl
  | (k, x) :: xs, ys => by
      cases ys with
      | nil => rfl
      | cons f ys =>
          obtain ⟨l, y⟩ := f
          rw [sameFields, sameFields, same_comm x y, sameFields_comm xs ys, Bool.beq_comm]

end

mutual

/-- What equals a value equals everything that this value equals. -/
theorem same_trans : (u v w : Value) → u.same v = true → v.same w = true → u.same w = true
  | .null, v, w, h, k => by
      cases v with
      | null => exact k
      | _ => cases h
  | .bool a, v, w, h, k => by
      cases v with
      | bool b => rwa [eq_of_beq h]
      | _ => cases h
  | .number l, v, w, h, k => by
      cases v with
      | number m =>
          cases w with
          | number n => exact Number.same_trans h k
          | _ => cases k
      | _ => cases h
  | .string s, v, w, h, k => by
      cases v with
      | string t => rwa [eq_of_beq h]
      | _ => cases h
  | .array xs, v, w, h, k => by
      cases v with
      | array ys =>
          cases w with
          | array zs => exact sameItems_trans xs ys zs h k
          | _ => cases k
      | _ => cases h
  | .object xs, v, w, h, k => by
      cases v with
      | object ys =>
          cases w with
          | object zs => exact sameFields_trans xs ys zs h k
          | _ => cases k
      | _ => cases h

theorem sameItems_trans : (xs ys zs : List Value) → sameItems xs ys = true → sameItems ys zs = true →
    sameItems xs zs = true
  | [], ys, zs, h, k => by
      cases ys with
      | nil => exact k
      | cons y ys => cases h
  | x :: xs, ys, zs, h, k => by
      cases ys with
      | nil => cases h
      | cons y ys =>
          cases zs with
          | nil => cases k
          | cons z zs =>
              rw [sameItems, Bool.and_eq_true] at h k ⊢
              exact ⟨same_trans x y z h.1 k.1, sameItems_trans xs ys zs h.2 k.2⟩

theorem sameFields_trans : (xs ys zs : List (String × Value)) → sameFields xs ys = true → sameFields ys zs = true →
    sameFields xs zs = true
  | [], ys, zs, h, k => by
      cases ys with
      | nil => exact k
      | cons y ys => cases h
  | (a, x) :: xs, ys, zs, h, k => by
      cases ys with
      | nil => cases h
      | cons f ys =>
          cases zs with
          | nil => cases k
          | cons g zs =>
              obtain ⟨b, y⟩ := f
              obtain ⟨c, z⟩ := g
              simp only [sameFields, Bool.and_eq_true, beq_iff_eq] at h k ⊢
              obtain ⟨⟨name, value⟩, others⟩ := h
              obtain ⟨⟨name', value'⟩, others'⟩ := k
              exact ⟨⟨name.trans name', same_trans x y z value value'⟩, sameFields_trans xs ys zs others others'⟩

end

/-- Two numbers are equal if their place is the same. -/
theorem equals_of_order {m n : Number} {o : Ordering} (h : m.order n = some o) :
    (number m).equals (number n) = o.isEq := by
  rw [equals, h]
  cases o <;> rfl

/-- Equality of values has no direction. -/
theorem equals_comm (v w : Value) : v.equals w = w.equals v := by
  cases v with
  | number m =>
      cases w with
      | number n =>
          obtain ⟨i, j, here, there⟩ := m.exists_order n
          rw [equals_of_order here, equals_of_order there, ← Int.compare_swap]
          cases compare j i <;> rfl
      | _ => exact same_comm _ _
  | _ => cases w <;> exact same_comm _ _

end Value

/-! ## Operands -/

/-- Two operands that have places in an order: two numbers or two strings. -/
def Comparable (l r : Option Value) : Prop :=
  (∃ m n, l = some (.number m) ∧ r = some (.number n)) ∨ ∃ s t, l = some (.string s) ∧ r = some (.string t)

/-- Two values have places in an order, and are equal if their place is the same, or they are not comparable. -/
theorem Value.order?_cases (v w : Value) :
    (Comparable (some v) (some w) ∧
      ∃ o, v.order? w = some o ∧ w.order? v = some o.swap ∧ v.equals w = o.isEq) ∨
    (¬ Comparable (some v) (some w) ∧ v.order? w = none ∧ w.order? v = none) := by
  by_cases comparable : Comparable (some v) (some w)
  · refine .inl ⟨comparable, ?_⟩
    rcases comparable with ⟨m, n, left, right⟩ | ⟨s, t, left, right⟩
    · cases left
      cases right
      obtain ⟨i, j, here, there⟩ := m.exists_order n
      exact ⟨compare i j, here, there.trans (by rw [Int.compare_swap]), equals_of_order here⟩
    · cases left
      cases right
      refine ⟨compare s t, rfl, congrArg some Std.OrientedOrd.eq_swap, ?_⟩
      show (s == t) = (compare s t).isEq
      rw [Bool.eq_iff_iff, beq_iff_eq, Ordering.isEq_iff_eq_eq, Std.compare_eq_iff_eq]
  · refine .inr ⟨comparable, ?_⟩
    cases v with
    | number m =>
        cases w with
        | number n => exact absurd (.inl ⟨m, n, rfl, rfl⟩) comparable
        | _ => exact ⟨rfl, rfl⟩
    | string s =>
        cases w with
        | string t => exact absurd (.inr ⟨s, t, rfl, rfl⟩) comparable
        | _ => exact ⟨rfl, rfl⟩
    | _ => cases w <;> exact ⟨rfl, rfl⟩

namespace Operator

/-- Absence differs from everything and has no place in any order. -/
theorem holds_of_absent {l r : Option Value} (absent : l = none ∨ r = none) (op : Operator) :
    op.holds l r = op.admitsUnordered false := by
  have differs : op.holds l r = decide (op = ne) := by
    rcases absent with rfl | rfl
    · rfl
    · cases l <;> rfl
  rw [differs]
  cases op <;> rfl

/-- **What the operators go by**, in both directions of a comparison. -/
theorem holds_cases (l r : Option Value) :
    (Comparable l r ∧ ∃ o, ∀ op : Operator, op.holds l r = op.admits o ∧ op.holds r l = op.admits o.swap) ∨
    (¬ Comparable l r ∧
      ∃ equal, ∀ op : Operator, op.holds l r = op.admitsUnordered equal ∧ op.holds r l = op.admitsUnordered equal) := by
  by_cases absent : l = none ∨ r = none
  · refine .inr ⟨?_, false, fun op => ⟨holds_of_absent absent op, holds_of_absent absent.symm op⟩⟩
    rintro (⟨m, n, rfl, rfl⟩ | ⟨s, t, rfl, rfl⟩) <;> rcases absent with none | none <;> cases none
  · rw [not_or] at absent
    obtain ⟨v, rfl⟩ := Option.ne_none_iff_exists'.mp absent.1
    obtain ⟨w, rfl⟩ := Option.ne_none_iff_exists'.mp absent.2
    rcases v.order?_cases w with ⟨comparable, o, here, there, equals⟩ | ⟨not, here, there⟩
    · refine .inl ⟨comparable, o, fun op => ⟨holdsOn_of_order here equals op, holdsOn_of_order there ?_ op⟩⟩
      rw [Value.equals_comm, equals]
      cases o <;> rfl
    · refine .inr ⟨not, v.equals w, fun op => ⟨holdsOn_of_unordered here op, ?_⟩⟩
      rw [Value.equals_comm]
      exact holdsOn_of_unordered there op

/-- What ties the six operators together on two operands. -/
structure Coherent (l r : Option Value) : Prop where
  /-- They are different exactly where they are not equal. -/
  ne_not_eq : ne.holds l r = !eq.holds l r
  /-- Equality has no direction. -/
  eq_comm : eq.holds l r = eq.holds r l
  /-- The one is below the other where the other is above the one. -/
  lt_gt : lt.holds l r = gt.holds r l
  /-- The one is at most the other where the other is at least the one. -/
  le_ge : le.holds l r = ge.holds r l
  /-- No two of below, equal and above hold. -/
  atMostOne : [lt, eq, gt].countP (·.holds l r) ≤ 1
  /-- Of two numbers and of two strings one of the three holds, and at most means below or equal. -/
  ordered : Comparable l r →
    [lt, eq, gt].countP (·.holds l r) = 1 ∧ le.holds l r = (lt.holds l r || eq.holds l r)
  /-- Of all others none is below, above, at most or at least the other. -/
  unordered : ¬ Comparable l r → ∀ op ∈ [lt, gt, le, ge], op.holds l r = false
  /-- Two integers of 64 bits, with a sign or without, stand as integers do. -/
  integers : ∀ i j hi hj, l = some (.number (.int i hi)) → r = some (.number (.int j hj)) →
    ∀ op : Operator, op.holds l r = true ↔ op.relates i j

/-- An operator on two numbers is what it says of two integers that stand as they do. -/
theorem holds_numbers_iff {m n : Number} {i j : Int} (order : m.order n = some (compare i j)) (op : Operator) :
    op.holds (some (.number m)) (some (.number n)) = true ↔ op.relates i j := by
  have place : (Value.number m).order? (.number n) = some (compare i j) := order
  rw [holds, holdsOn_of_order place (Value.equals_of_order order), admits_compare_iff]

/-- **The six operators fit together**, on any two operands. -/
theorem operators_cohere (l r : Option Value) : Coherent l r := by
  have integers : ∀ i j hi hj, l = some (.number (.int i hi)) → r = some (.number (.int j hj)) →
      ∀ op : Operator, op.holds l r = true ↔ op.relates i j := by
    rintro i j hi hj rfl rfl op
    exact holds_numbers_iff rfl op
  rcases holds_cases l r with ⟨comparable, o, goes⟩ | ⟨not, equal, goes⟩
  · have here := fun op => (goes op).1
    have there := fun op => (goes op).2
    -- Each clause is about one of three places.
    refine ⟨?_, ?_, ?_, ?_, ?_, fun _ => ⟨?_, ?_⟩, fun not => absurd comparable not, integers⟩ <;>
      simp only [here, there, List.countP_cons, List.countP_nil] <;> cases o <;> decide
  · have here := fun op => (goes op).1
    have there := fun op => (goes op).2
    refine ⟨?_, ?_, ?_, ?_, ?_, fun comparable => absurd comparable not, fun _ op listed => ?_, integers⟩ <;>
      simp only [here, there, List.countP_cons, List.countP_nil]
    case refine_6 =>
      -- Equality says nothing of the four operators that ask for an order.
      cases op with
      | eq => simp at listed
      | ne => simp at listed
      | _ => rfl
    all_goals cases equal <;> decide

end Operator

end Rulebook
