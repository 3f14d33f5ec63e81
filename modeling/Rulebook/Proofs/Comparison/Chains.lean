import Rulebook.Proofs.Comparison

/-!
# `Rulebook.Proofs.Comparison.Chains` — chains of comparisons of numbers

Two integers are compared as integers, and any other two numbers as floats. Each of the two is an order of its own, and
chains that mix them close as well, because rounding is monotone: what holds between two numbers holds between their
ranks. There is one exception. A float between two integers that are both rounded to it hides how the two stand.

* `Number.compares` — an operator between two numbers
* `Number.relates_rank`, `Number.chain_iff` — a chain passes to the ranks, and closes but between integers
* `Number.Meets` — two integers and a float that is the nearest one to both
* `Number.ordered_unless_meets` — **the order of numbers**, and exactly where it breaks
-/

namespace Rulebook

namespace Number

/-- Whether an operator holds between two numbers. -/
def compares (m : Number) (op : Operator) (n : Number) : Bool := op.holds (some (.number m)) (some (.number n))

variable {a b c : Number} {i j : Int}

theorem compares_integers_iff (ha : a.toInt? = some i) (hb : b.toInt? = some j) (op : Operator) :
    a.compares op b = true ↔ op.relates i j :=
  Operator.holds_numbers_iff (order_of_integers ha hb) op

theorem compares_rounded_iff (float : a.toInt? = none ∨ b.toInt? = none) (op : Operator) :
    a.compares op b = true ↔ op.relates a.rank b.rank :=
  Operator.holds_numbers_iff (order_of_rounded float) op

/-- Rounding keeps what an operator says of integers. -/
def Kept (op : Operator) : Prop :=
  ∀ i j, op.relates i j → op.relates (Binary64.ofInt i).rank (Binary64.ofInt j).rank

theorem kept_le : Kept .le := fun _ _ => Binary64.rank_ofInt_mono

theorem kept_eq : Kept .eq := fun _ _ same => congrArg (fun i => (Binary64.ofInt i).rank) same

/-- What holds between two numbers holds between their ranks, if rounding keeps it. -/
theorem relates_rank {op : Operator} (kept : Kept op) (h : a.compares op b = true) : op.relates a.rank b.rank := by
  rcases a.toInt?_cases b with ⟨i, j, hi, hj⟩ | float
  · rw [rank_of_toInt? hi, rank_of_toInt? hj]
    exact kept i j ((compares_integers_iff hi hj op).mp h)
  · exact (compares_rounded_iff float op).mp h

/-- A chain of two comparisons closes, unless it leads from an integer through a float to an integer. -/
theorem chain_iff {op : Operator} (kept : Kept op)
    (trans : ∀ i j k, op.relates i j → op.relates j k → op.relates i k)
    (first : a.compares op b = true) (second : b.compares op c = true) :
    a.compares op c = true ↔
      ∀ i j, a.toInt? = some i → b.toInt? = none → c.toInt? = some j → op.relates i j := by
  constructor
  · intro closes i j ha _ hc
    exact (compares_integers_iff ha hc op).mp closes
  · intro ends
    rcases a.toInt?_cases c with ⟨i, j, hi, hj⟩ | float
    · refine (compares_integers_iff hi hj op).mpr ?_
      cases hk : b.toInt? with
      | none => exact ends i j hi hk hj
      | some k =>
          -- Three integers are compared exactly throughout.
          have left := (compares_integers_iff hi hk op).mp first
          have right := (compares_integers_iff hk hj op).mp second
          exact trans i k j left right
    · refine (compares_rounded_iff float op).mpr ?_
      exact trans _ _ _ (relates_rank kept first) (relates_rank kept second)

/-- `a` and `c` are the integers `i` and `j`, and `b` is a float that equals the nearest one to either of them. -/
structure Meets (a b c : Number) (i j : Int) : Prop where
  left : a.toInt? = some i
  float : b.toInt? = none
  right : c.toInt? = some j
  nearLeft : (Binary64.ofInt i).eq b.toBinary64 = true
  nearRight : (Binary64.ofInt j).eq b.toBinary64 = true

/-- Two integers meet at a float if the three have one rank. -/
theorem meets_of_rank (ha : a.toInt? = some i) (hb : b.toInt? = none) (hc : c.toInt? = some j)
    (left : a.rank = b.rank) (right : b.rank = c.rank) : a.Meets b c i j := by
  have near : ∀ {k : Int}, (Binary64.ofInt k).rank = b.rank → (Binary64.ofInt k).eq b.toBinary64 = true := by
    intro k same
    rw [rank] at same
    rw [Binary64.eq, Binary64.compare?_eq_rank (Binary64.ofInt_ne_nan k) b.toBinary64_ne_nan,
      Int.compare_eq_eq.mpr same]
    rfl
  exact ⟨ha, hb, hc, near ((rank_of_toInt? ha).symm.trans left), near ((rank_of_toInt? hc).symm.trans right.symm)⟩

/-- Of two numbers one is at most the other. -/
theorem compares_le_total (a b : Number) : a.compares .le b = true ∨ b.compares .le a = true := by
  obtain ⟨i, j, here, there⟩ := a.exists_order b
  rcases Int.le_total i j with le | le
  · exact .inl ((Operator.holds_numbers_iff here .le).mpr le)
  · exact .inr ((Operator.holds_numbers_iff there .le).mpr le)

theorem compares_le_trans_iff (first : a.compares .le b = true) (second : b.compares .le c = true) :
    a.compares .le c = true ↔ ¬ ∃ i j, a.Meets b c i j ∧ j < i := by
  rw [chain_iff kept_le (fun _ _ _ => Int.le_trans) first second]
  constructor
  · rintro ends ⟨i, j, meets, greater⟩
    exact absurd (ends i j meets.left meets.float meets.right) (Int.not_le.mpr greater)
  · intro apart i j ha hb hc
    refine Int.not_lt.mp fun greater => apart ⟨i, j, ?_, greater⟩
    -- The ranks go up from the first to the third, and rounding keeps them from going up: the three are one.
    have up : a.rank ≤ b.rank := relates_rank kept_le first
    have on : b.rank ≤ c.rank := relates_rank kept_le second
    have down : c.rank ≤ a.rank := by
      rw [rank_of_toInt? ha, rank_of_toInt? hc]
      exact kept_le j i (Int.le_of_lt greater)
    exact meets_of_rank ha hb hc (Int.le_antisymm up (Int.le_trans on down)) (Int.le_antisymm on (Int.le_trans down up))

theorem compares_eq_trans_iff (first : a.compares .eq b = true) (second : b.compares .eq c = true) :
    a.compares .eq c = true ↔ ¬ ∃ i j, a.Meets b c i j ∧ i ≠ j := by
  rw [chain_iff kept_eq (fun _ _ _ => Eq.trans) first second]
  constructor
  · rintro ends ⟨i, j, meets, different⟩
    exact different (ends i j meets.left meets.float meets.right)
  · intro apart i j ha hb hc
    show i = j
    refine Decidable.byContradiction fun different => apart ⟨i, j, ?_, different⟩
    exact meets_of_rank ha hb hc (relates_rank kept_eq first) (relates_rank kept_eq second)

/-- **Numbers are ordered, but for floats at which integers meet.** Of two numbers one is at most the other. If one is
    at most the next and that at most a third, the first is at most the third, unless the second one is a float at which
    two integers meet of which the first is the greater; and if the three are equal in turn, the first equals the third,
    unless the second one is a float at which two different integers meet. -/
theorem ordered_unless_meets (a b c : Number) :
    (a.compares .le b = true ∨ b.compares .le a = true) ∧
    (a.compares .le b = true → b.compares .le c = true →
      (a.compares .le c = true ↔ ¬ ∃ i j, a.Meets b c i j ∧ j < i)) ∧
    (a.compares .eq b = true → b.compares .eq c = true →
      (a.compares .eq c = true ↔ ¬ ∃ i j, a.Meets b c i j ∧ i ≠ j)) :=
  ⟨compares_le_total a b, compares_le_trans_iff, compares_eq_trans_iff⟩

/-- An integer that is a float, 2⁵⁴. -/
def power : Number := .int 18014398509481984 (by decide)

/-- The same number, as a float. -/
def powerFloat : Number := .float ⟨false, 18014398509481984 * Binary64.one, by decide +kernel⟩

/-- The integer after it, which is rounded to it. -/
def afterPower : Number := .int 18014398509481985 (by decide)

/-- Upward through the float at which they meet, two integers stand as they should, and yet they are not equal. -/
theorem ordered_unless_meets_upward :
    power.compares .le powerFloat = true ∧ powerFloat.compares .le afterPower = true ∧
    power.compares .eq powerFloat = true ∧ powerFloat.compares .eq afterPower = true ∧
    power.compares .le afterPower = true ∧
    ∃ i j, power.Meets powerFloat afterPower i j ∧ i ≠ j := by
  have up : power.compares .le powerFloat = true := by decide +kernel
  have on : powerFloat.compares .le afterPower = true := by decide +kernel
  have left : power.compares .eq powerFloat = true := by decide +kernel
  have right : powerFloat.compares .eq afterPower = true := by decide +kernel
  obtain ⟨-, le, eq⟩ := ordered_unless_meets power powerFloat afterPower
  refine ⟨up, on, left, right, (le up on).mpr ?_, ?_⟩
  · rintro ⟨i, j, meets, greater⟩
    cases meets.left
    cases meets.right
    exact absurd greater (by decide)
  · have apart : power.compares .eq afterPower = false := by decide +kernel
    refine Classical.byContradiction fun none => ?_
    cases ((eq left right).mpr none).symm.trans apart

/-- **A chain that does not close**: 2⁵⁴ + 1 equals the float 2⁵⁴, and that equals the integer 2⁵⁴. -/
theorem not_transitive :
    afterPower.compares .le powerFloat = true ∧ powerFloat.compares .le power = true ∧
    afterPower.compares .le power = false ∧ afterPower.compares .eq powerFloat = true ∧
    powerFloat.compares .eq power = true ∧ afterPower.compares .eq power = false := by
  decide +kernel

end Number

end Rulebook
