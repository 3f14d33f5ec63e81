/-!
# `Rulebook.Binary64.Basic` — binary floating-point numbers of 64 bits

A finite number of this format is a whole number of units of 2⁻¹⁰⁷⁴ with a sign, where the units have
at most 53 significant bits. Every operation computes the exact result and rounds it once, to the
nearest such number, of two equally near the one whose last significant bit is zero.

## Contents
* `Finite`, `Binary64` — the numbers, with the two infinities and the one that is not a number
* `ofRatio` — the nearest number to a quotient of units
* `add`, `sub`, `mul`, `div`, `rem`, `neg`, `ofInt` — arithmetic, rounded once
* `compare?`, `eq` — the order; zero has two signs but one place in it
-/

namespace Rulebook

namespace Binary64

/-! ## The grid -/

/-- One, in units. -/
def one : Nat := Nat.pow 2 1074

/-- The first power of two that is too large, 2¹⁰²⁴, in units. -/
def limit : Nat := Nat.pow 2 2098

/-- `n` units make up a finite number: they have at most 53 significant bits and stay below the limit. -/
def Representable (n : Nat) : Prop := Nat.pow 2 (n.log2 - 52) ∣ n ∧ n < limit

instance (n : Nat) : Decidable (Representable n) := by unfold Representable; infer_instance

/-- A finite number: a sign and a count of units of 2⁻¹⁰⁷⁴. Zero keeps its sign. -/
structure Finite where
  negative : Bool
  units : Nat
  representable : Representable units
  deriving DecidableEq

end Binary64

/-- A floating-point number of 64 bits. -/
inductive Binary64 where
  | finite (x : Binary64.Finite)
  | infinite (negative : Bool)
  | nan
  deriving DecidableEq

namespace Binary64

/-! ## Rounding -/

/-- The whole number nearest to `num / den`; of two equally near, the even one. -/
def roundDiv (num den : Nat) : Nat :=
  let q := num / den
  let r := num % den
  if 2 * r < den then q
  else if den < 2 * r then q + 1
  else if q % 2 = 0 then q else q + 1

/-- The units nearest to `num / den` that have at most 53 significant bits. -/
def roundUnits (num den : Nat) : Nat :=
  let e := (num / den).log2 - 52
  roundDiv num (den * Nat.pow 2 e) * Nat.pow 2 e

theorem limit_pos : 0 < limit := by decide +kernel

theorem roundDiv_le (num den : Nat) : roundDiv num den ≤ num / den + 1 := by
  unfold roundDiv
  dsimp only
  split <;> try split
  all_goals try split
  all_goals omega

/-- A count of at most 53 bits, moved up by `e` places, has at most 53 significant bits. -/
theorem pow_dvd_mul_pow {m : Nat} (e : Nat) (h : m ≤ Nat.pow 2 53) :
    Nat.pow 2 ((m * Nat.pow 2 e).log2 - 52) ∣ m * Nat.pow 2 e := by
  simp only [Nat.pow_eq] at h ⊢
  by_cases h0 : m = 0
  · simp [h0]
  by_cases h1 : m = 2 ^ 53
  · subst h1
    rw [← Nat.pow_add, Nat.log2_two_pow]
    exact Nat.pow_dvd_pow 2 (by omega)
  · have hlt : m < 2 ^ 53 := by omega
    have hne : m * 2 ^ e ≠ 0 := Nat.mul_ne_zero h0 (Nat.pos_iff_ne_zero.1 (Nat.two_pow_pos e))
    have hb : m * 2 ^ e < 2 ^ (53 + e) := by
      rw [Nat.pow_add]; exact Nat.mul_lt_mul_of_pos_right hlt (Nat.two_pow_pos e)
    have hl : (m * 2 ^ e).log2 < 53 + e := (Nat.log2_lt hne).2 hb
    exact Nat.dvd_trans (Nat.pow_dvd_pow 2 (by omega)) (Nat.dvd_mul_left _ _)

/-- Rounding leaves at most 53 significant bits. -/
theorem pow_dvd_roundUnits (num den : Nat) :
    Nat.pow 2 ((roundUnits num den).log2 - 52) ∣ roundUnits num den := by
  unfold roundUnits
  refine pow_dvd_mul_pow _ (Nat.le_trans (roundDiv_le _ _) ?_)
  rw [← Nat.div_div_eq_div_mul]
  generalize num / den = q
  have hq : q < 2 ^ (q.log2 + 1) := Nat.lt_log2_self
  simp only [Nat.pow_eq]
  suffices q / 2 ^ (q.log2 - 52) < 2 ^ 53 by omega
  rw [Nat.div_lt_iff_lt_mul (Nat.two_pow_pos _), ← Nat.pow_add]
  exact Nat.lt_of_lt_of_le hq (Nat.pow_le_pow_right (by decide) (by omega))

/-- The number nearest to `num / den` units, infinite from the limit on. -/
def ofRatio (negative : Bool) (num den : Nat) : Binary64 :=
  if h : roundUnits num den < limit then
    .finite ⟨negative, roundUnits num den, pow_dvd_roundUnits num den, h⟩
  else .infinite negative

/-! ## Zero, integers and order -/

namespace Finite

/-- Zero with a sign. -/
def zero (negative : Bool) : Finite := ⟨negative, 0, Nat.dvd_zero _, limit_pos⟩

/-- The units of a number with their sign; both zeros have none. -/
def signed (x : Finite) : Int := if x.negative then -(x.units : Int) else x.units

/-- Equal in value: the two zeros are equal. -/
def eq (x y : Finite) : Bool := x.signed == y.signed

/-- The same magnitude with the other sign. -/
def neg (x : Finite) : Finite := { x with negative := !x.negative }

end Finite

/-- The number nearest to an integer. -/
def ofInt (n : Int) : Binary64 := ofRatio (decide (n < 0)) (n.natAbs * one) 1

/-- A number that is neither infinite nor undefined. -/
def isFinite : Binary64 → Bool
  | finite _ => true
  | _ => false

/-- A number that equals zero, of either sign. -/
def isZero : Binary64 → Bool
  | finite x => x.units == 0
  | _ => false

/-- The place of `x` relative to `y`; none where one of them is not a number. -/
def compare? : Binary64 → Binary64 → Option Ordering
  | nan, _ | _, nan => none
  | finite x, finite y => some (compare x.signed y.signed)
  | infinite a, infinite b => some (if a = b then .eq else if a then .lt else .gt)
  | infinite a, finite _ => some (if a then .lt else .gt)
  | finite _, infinite b => some (if b then .gt else .lt)

/-- Equal in value: the two zeros are equal, and what is not a number equals nothing. -/
def eq (x y : Binary64) : Bool := compare? x y == some .eq

/-! ## Arithmetic -/

/-- The same number with the other sign. -/
def neg : Binary64 → Binary64
  | finite x => finite x.neg
  | infinite a => infinite !a
  | nan => nan

/-- The sum. A sum of zero is negative only when both terms are. -/
def add : Binary64 → Binary64 → Binary64
  | nan, _ | _, nan => nan
  | infinite a, infinite b => if a = b then infinite a else nan
  | infinite a, finite _ => infinite a
  | finite _, infinite b => infinite b
  | finite x, finite y =>
    let s := x.signed + y.signed
    if s = 0 then finite (.zero (x.negative && y.negative))
    else ofRatio (decide (s < 0)) s.natAbs 1

/-- The difference. -/
def sub (x y : Binary64) : Binary64 := add x (neg y)

/-- The product. Zero times infinity is not a number. -/
def mul : Binary64 → Binary64 → Binary64
  | nan, _ | _, nan => nan
  | infinite a, infinite b => infinite (a ^^ b)
  | infinite a, finite y => if y.units = 0 then nan else infinite (a ^^ y.negative)
  | finite x, infinite b => if x.units = 0 then nan else infinite (x.negative ^^ b)
  | finite x, finite y => ofRatio (x.negative ^^ y.negative) (x.units * y.units) one

/-- The quotient. By zero it is infinite, and of two zeros or two infinities it is not a number. -/
def div : Binary64 → Binary64 → Binary64
  | nan, _ | _, nan => nan
  | infinite _, infinite _ => nan
  | infinite a, finite y => infinite (a ^^ y.negative)
  | finite x, infinite b => finite (.zero (x.negative ^^ b))
  | finite x, finite y =>
    if y.units = 0 then
      if x.units = 0 then nan else infinite (x.negative ^^ y.negative)
    else ofRatio (x.negative ^^ y.negative) (x.units * one) y.units

/-- The remainder of the division that truncates toward zero; it has the sign of `x`. -/
def rem : Binary64 → Binary64 → Binary64
  | nan, _ | _, nan => nan
  | infinite _, _ => nan
  | finite x, infinite _ => finite x
  | finite x, finite y => if y.units = 0 then nan else ofRatio x.negative (x.units % y.units) 1

end Binary64

end Rulebook
