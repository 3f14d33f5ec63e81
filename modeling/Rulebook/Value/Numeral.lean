import Rulebook.Text.Scan
import Rulebook.Value.Basic
import Rulebook.Binary64.Decimal

/-!
# `Rulebook.Value.Numeral` — the value of a written number

A number without point and exponent that fits 64 bits is an integer, except `-0`. Every other number is a
float. It is computed from the longest significand of at most 64 bits: that integer is rounded to a float,
which is then multiplied or divided by a power of ten, each step rounding once. The result can lie next to
the float that is nearest to the decimal as written.

## Contents
* `Numeral` — a number as it is written
* `Numeral.significand` — the digits that count, and the power of ten that they are scaled by
* `Numeral.value?` — the number, unless it is out of range
-/

namespace Rulebook

/-- A number as it is written: sign, digits before and after the point, and the exponent with its sign. -/
structure Numeral where
  negative : Bool
  whole : List Char
  fraction : List Char
  exponent : Option Text.Exponent

namespace Numeral

/-- A significand that grows digit by digit while it fits 64 bits; the digits taken and those left over. -/
def fill : Nat → List Char → Nat × Nat × Nat
  | n, [] => (n, 0, 0)
  | n, d :: ds =>
    let m := n * 10 + (d.toNat - '0'.toNat)
    if m < UInt64.size then
      let (r, taken, left) := fill m ds
      (r, taken + 1, left)
    else (n, 0, (d :: ds).length)

/-- The significand of a numeral and the power of ten that it is scaled by. Digits of the whole part that
    do not fit any more still count as places; those of the fraction count for nothing. -/
def significand (x : Numeral) : Nat × Int :=
  let (n, _, left) := fill 0 x.whole
  let (m, taken, _) := fill n x.fraction
  (m, (left : Int) - taken)

/-- A power of ten as a float. -/
def powerOfTen (k : Nat) : Binary64 := Binary64.ofDecimal false ⟨1, k⟩

/-- `f` scaled by `10 ^ e`. A power above 10³⁰⁸ is out of range; one below 10⁻³⁰⁸ is applied in parts, and
    three parts bring every significand to zero. -/
def scale (parts : Nat) (f : Binary64) (e : Int) : Option Binary64 :=
  if e.natAbs ≤ 308 then
    if 0 ≤ e then
      match f.mul (powerOfTen e.natAbs) with
      | .infinite _ => none
      | r => some r
    else some (f.div (powerOfTen e.natAbs))
  else if f.isZero then some f
  else if 0 ≤ e then none
  else match parts with
    | 0 => some (.finite (.zero false))
    | k + 1 => scale k (f.div (powerOfTen 308)) (e + 308)

/-- The size of a float, unless it is out of range. An exponent of 2³¹ or more is not applied: it is out of
    range when positive, and zero otherwise. -/
def magnitude? (x : Numeral) : Option Binary64 :=
  let (n, places) := x.significand
  match x.exponent with
  | none => scale 3 (.ofInt n) places
  | some e =>
    if Text.digitsValue e.digits < 0x80000000 then scale 3 (.ofInt n) (places + e.power)
    else if n ≠ 0 ∧ e.negative = false then none
    else some (.finite (.zero false))

/-- The number, unless it is out of range. -/
def value? (x : Numeral) : Option Number :=
  let float : Option Number :=
    match x.magnitude? with
    | some (.finite f) => some (.float (if x.negative then f.neg else f))
    | _ => none
  if x.fraction = [] ∧ x.exponent.isNone then
    let n := Text.digitsValue x.whole
    if x.negative then
      if n = 0 then float
      else (Number.ofInt? (-n)).or float
    else (Number.ofInt? n).or float
  else float

end Numeral

end Rulebook
