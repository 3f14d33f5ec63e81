import Rulebook.Binary64.Basic

/-!
# `Rulebook.Binary64.Decimal` — decimal notation of binary numbers

Reading a decimal takes the number nearest to it. Writing a number takes the fewest digits that read back
as that number, and of the decimals with so few digits the one nearest to it. Two decimals can be equally
near; a `Tie` says which one is then written.

## Contents
* `ofDecimal` — the number nearest to `digits × 10 ^ exponent`
* `shortest` — the shortest decimal that reads back
* `Layout` — how a decimal is laid out as text, and `Layout.write`
-/

namespace Rulebook

namespace Binary64

/-! ## Reading -/

/-- A decimal that is not negative: `digits × 10 ^ exponent`. -/
structure Decimal where
  digits : Nat
  exponent : Int
  deriving DecidableEq

/-- How many decimal digits `n` has. -/
def digitCount (n : Nat) : Nat := (Nat.toDigits 10 n).length

/-- The number nearest to a decimal. Decimals of 10³¹⁰ and more are infinite and those under 10⁻³³⁰ are
    zero, so that no power of ten beyond the digits given is ever computed for them. -/
def ofDecimal (negative : Bool) (d : Decimal) : Binary64 :=
  let top : Int := digitCount d.digits + d.exponent
  if d.digits = 0 then finite (.zero negative)
  else if 310 < top then infinite negative
  else if top < -330 then finite (.zero negative)
  else if 0 ≤ d.exponent then ofRatio negative (d.digits * Nat.pow 10 d.exponent.toNat * one) 1
  else ofRatio negative (d.digits * one) (Nat.pow 10 (-d.exponent).toNat)

/-! ## The shortest digits -/

/-- Which of two equally near decimals is written: the one with an even last digit, or the larger. -/
inductive Tie where
  | even
  | up
  deriving DecidableEq

/-- `units` measured in steps of `10 ^ exponent`, as a quotient. -/
def inSteps (units : Nat) (exponent : Int) : Nat × Nat :=
  if 0 ≤ exponent then (units, one * Nat.pow 10 exponent.toNat)
  else (units * Nat.pow 10 (-exponent).toNat, one)

/-- The decimal with last place `10 ^ exponent` that is written for `units`, if one reads back: of the two
    neighbours on that grid the nearer one that does. -/
def onGrid? (tie : Tie) (units : Nat) (exponent : Int) : Option Decimal :=
  let (num, den) := inSteps units exponent
  let below : Decimal := ⟨num / den, exponent⟩
  let above : Decimal := ⟨num / den + 1, exponent⟩
  let back (d : Decimal) : Bool :=
    match ofDecimal false d with
    | finite x => x.units == units
    | _ => false
  let r := 2 * (num % den)
  let low :=
    if r < den then true
    else if den < r then false
    else match tie with
      | .even => below.digits % 2 == 0
      | .up => false
  match back below, back above with
  | true, true => some (if low then below else above)
  | true, false => some below
  | false, true => some above
  | false, false => none

/-- The exponent of the leading decimal digit of `units`. -/
def leadingExponent (units : Nat) : Int := digitCount (units * Nat.pow 10 330 / one) - 331

/-- `d` without zeros at the end of its digits. -/
def Decimal.stripped (d : Decimal) : Decimal :=
  let rec go : Nat → Nat → Int → Decimal
    | 0, n, e => ⟨n, e⟩
    | fuel + 1, n, e => if n % 10 = 0 then go fuel (n / 10) (e + 1) else ⟨n, e⟩
  go (digitCount d.digits) d.digits d.exponent

/-- The decimal with the fewest digits that reads back as `units`, which is not zero. Seventeen digits are
    always enough. -/
def shortest (tie : Tie) (units : Nat) : Decimal :=
  let e := leadingExponent units
  ((List.range 17).findSome? fun i : Nat => onGrid? tie units (e - (i : Int))).getD ⟨0, 0⟩ |>.stripped

/-! ## Layout -/

/-- How numbers are written: which of two equally near decimals, up to which exponents of the leading digit
    without an exponent, and what follows a number without a fraction. -/
structure Layout where
  tie : Tie
  positional : Int → Bool
  whole : String

/-- The digits of `d` with a point, and zeros where the digits do not reach it. -/
def Layout.positionalText (l : Layout) (d : Decimal) : String :=
  let ds := Nat.toDigits 10 d.digits
  let k : Int := ds.length + d.exponent
  if k ≤ 0 then String.ofList ("0.".toList ++ List.replicate (-k).toNat '0' ++ ds)
  else if 0 ≤ d.exponent then String.ofList (ds ++ List.replicate d.exponent.toNat '0') ++ l.whole
  else String.ofList (ds.take k.toNat ++ '.' :: ds.drop k.toNat)

/-- One digit, a point and the others if there are any, and the exponent with its sign. -/
def scientificText (d : Decimal) : String :=
  let ds := Nat.toDigits 10 d.digits
  let e : Int := ds.length + d.exponent - 1
  let mantissa := match ds with
    | [] => []
    | [c] => [c]
    | c :: cs => c :: '.' :: cs
  String.ofList mantissa ++ (if e < 0 then "e-" else "e+") ++ Nat.repr e.natAbs

/-- The text of a finite number. -/
def Layout.writeFinite (l : Layout) (x : Finite) : String :=
  let sign := if x.negative then "-" else ""
  if x.units = 0 then sign ++ "0" ++ l.whole
  else
    let d := shortest l.tie x.units
    if l.positional (digitCount d.digits + d.exponent - 1) then sign ++ l.positionalText d
    else sign ++ scientificText d

/-- The text of a number. -/
def Layout.write (l : Layout) : Binary64 → String
  | finite x => l.writeFinite x
  | infinite negative => if negative then "-inf" else "inf"
  | nan => "NaN"

end Binary64

end Rulebook
