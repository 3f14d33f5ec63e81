import Mathlib.Data.List.TakeWhile
import Rulebook.Proofs.Expression.Cutting
import Rulebook.Proofs.Expression.Parsing

/-!
# `Rulebook.Proofs.Expression.Numerals` — the texts of integers as expressions

The text of an integer is decimal digits, after a minus sign if it is negative. As an expression, digits are a literal, and
the minus sign is an operator before it. A literal is an integer of 64 bits with a sign, so it is at most 2⁶³ - 1, and what
a minus sign makes of it is at least -(2⁶³ - 1). The smallest integer of 64 bits is one less. The digits after its minus sign
are too large for a literal, and they are refused before anything is negated.

* `scanNumber_digits`, `lexFrom_numeral` — digits are a literal if their number fits
* `Denotes` — a source that has one value on all facts
* `denotes_numeral`, `denotes_negative_numeral` — digits, and digits after a minus sign
* `denotes_text_iff` — **the text of an integer denotes it** unless it is the smallest one
-/

namespace Rulebook.Expression

/-! ## Digits -/

/-- **Digits alone are an integer literal** if their number fits 64 bits with a sign, and otherwise no token. -/
theorem scanNumber_digits {ds : List Char} (digits : ∀ d ∈ ds, d.isDigit = true) :
    scanNumber ds =
      if IsInt64 (Text.digitsValue ds) then .token (.literal (.int (.ofNat (Text.digitsValue ds)))) (ds.length - 1)
      else .stuck (ds.length - 1) := by
  have whole : ds.takeWhile Char.isDigit = ds := List.takeWhile_eq_self_iff.mpr digits
  simp only [scanNumber, whole, List.drop_length]
  rfl

/-- The digits of a number that fits are one literal. -/
theorem lexFrom_numeral {n : Nat} (fits : IsInt64 n) (pos : Nat) :
    ∃ span, lexFrom 0 pos (Nat.toDigits 10 n) = .ok [⟨.literal (.int (.ofNat n)), span⟩] := by
  have digits : ∀ d ∈ Nat.toDigits 10 n, d.isDigit = true :=
    fun d => Nat.isDigit_of_mem_toDigits (by decide) (by decide)
  have value : Text.digitsValue (Nat.toDigits 10 n) = n := Nat.ofDigitChars_ten_toDigits
  have scanned := scanNumber_digits digits
  rw [value, if_pos fits] at scanned
  cases numeral : Nat.toDigits 10 n with
  | nil => exact absurd numeral Nat.toDigits_ne_nil
  | cons d ds =>
      rw [numeral] at digits scanned
      have digit : d.isDigit = true := digits d List.mem_cons_self
      have inside : ¬ isGap d = true := fun gap => by
        rw [(isGap_spec gap).1] at digit
        cases digit
      have found : scan d ds = .token (.literal (.int (.ofNat n))) ds.length := by
        rw [scan, if_pos digit]
        exact scanned
      refine ⟨⟨pos, pos + 1 + ds.length⟩, ?_⟩
      rw [lexFrom_token inside found, lexFrom_of_length_le (Nat.le_refl _)]
      rfl

/-! ## Numerals -/

/-- A source is an expression that evaluates to one scalar, whatever the fact. -/
def Denotes (source : String) (a : Scalar) : Prop :=
  ∃ e, Expression.parse source = .ok e ∧ ∀ fact, e.evaluate fact = .ok a

/-- **A numeral denotes its number.** -/
theorem denotes_numeral {n : Int64} (positive : ¬ n.toInt < 0) : Denotes (Scalar.int n).text (.int n) := by
  have same : (n.toInt.natAbs : Int) = n.toInt := Int.natAbs_of_nonneg (Int.not_lt.mp positive)
  have fits : IsInt64 n.toInt.natAbs := by
    rw [same]
    exact isInt64_toInt n
  have number : Int64.ofNat n.toInt.natAbs = n := by
    rw [← Int64.ofInt_eq_ofNat, same, Int64.ofInt_toInt]
  obtain ⟨span, lexed⟩ := lexFrom_numeral fits 0
  rw [number] at lexed
  have text : (Scalar.int n).text.toList = Nat.toDigits 10 n.toInt.natAbs := by
    rw [Scalar.text, intText, if_neg positive]
    exact String.toList_ofList
  rw [← text] at lexed
  obtain ⟨node, parsed, shows⟩ := parse_of_derives lexed (a := .leaf (.literal (.int n)))
    (.sum (.single (.single (.primary (.operand trivial))))) trivial
  obtain ⟨span, rfl⟩ := Tree.outline_eq_literal shows.outline
  exact ⟨_, parsed, fun fact => rfl⟩

/-- **A numeral after a minus sign denotes the negation** of its number. -/
theorem denotes_negative_numeral {n : Int64} (negative : n.toInt < 0) (above : n ≠ Int64.minValue) :
    Denotes (Scalar.int n).text (.int n) := by
  have least : n.toInt ≠ -0x8000000000000000 := fun eq => above (Int64.toInt_inj.mp eq)
  have low := n.le_toInt
  -- Only the smallest integer has a magnitude that does not fit.
  have fits : IsInt64 n.toInt.natAbs := ⟨by omega, by omega⟩
  have number : (Int64.ofNat n.toInt.natAbs).toInt = -n.toInt := by
    rw [← Int64.ofInt_eq_ofNat, fits.toInt_ofInt]
    omega
  obtain ⟨span, lexed⟩ := lexFrom_numeral fits 1
  have text : (Scalar.int n).text.toList = '-' :: Nat.toDigits 10 n.toInt.natAbs := by
    rw [Scalar.text, intText, if_pos negative, String.toList_append]
    exact congrArg _ String.toList_ofList
  have lexed' : lexFrom 0 0 (Scalar.int n).text.toList =
      .ok [⟨.op .sub, ⟨0, 1⟩⟩, ⟨.literal (.int (.ofNat n.toInt.natAbs)), span⟩] := by
    rw [text, lexFrom_token (by decide) (show scan '-' _ = .token (.op .sub) 0 from rfl), lexed]
    rfl
  obtain ⟨node, parsed, shows⟩ := parse_of_derives lexed' (a := .negation (.leaf (.literal (.int (.ofNat n.toInt.natAbs)))))
    (.sum (.single (.single (.minus (.primary (.operand trivial)))))) trivial
  obtain ⟨inner, i, height, rfl, literal⟩ := Tree.outline_eq_negation shows.outline
  obtain ⟨j, rfl⟩ := Tree.outline_eq_literal literal
  refine ⟨_, parsed, fun fact => ?_⟩
  have negated : negate (.int (.ofNat n.toInt.natAbs)) = .ok (.int n) := by
    rw [negate, number, Int.neg_neg, checked, if_pos (isInt64_toInt n), Int64.ofInt_toInt]
  show ((located i (negate _)).mapError _ : Except ExpressionError Scalar) = .ok (.int n)
  rw [negated]
  rfl

/-- The text of the smallest integer is no expression. -/
theorem parse_smallest :
    Expression.parse (Scalar.int Int64.minValue).text =
      .error ⟨.unrecognised "9223372036854775808", "9223372036854775808"⟩ := by
  have text : (Scalar.int Int64.minValue).text = "-9223372036854775808" := by decide +kernel
  rw [text]
  rfl

/-- **The text of an integer denotes the integer**, for every integer of 64 bits but the smallest one: the text of any other
    is an expression, and on every fact it evaluates to the integer. The text of the smallest one is refused at the digits
    after its minus sign, which are more than an integer of 64 bits can be. -/
theorem denotes_text_iff :
    (∀ n : Int64, Denotes (Scalar.int n).text (.int n) ↔ n ≠ Int64.minValue) ∧
    Expression.parse (Scalar.int Int64.minValue).text =
      .error ⟨.unrecognised "9223372036854775808", "9223372036854775808"⟩ := by
  refine ⟨fun n => ⟨?_, fun above => ?_⟩, parse_smallest⟩
  · rintro ⟨e, parsed, -⟩ rfl
    rw [parse_smallest] at parsed
    cases parsed
  · by_cases negative : n.toInt < 0
    · exact denotes_negative_numeral negative above
    · exact denotes_numeral negative

/-- **The text of the smallest integer does not denote it.** -/
theorem smallest_not_denoted :
    (Scalar.int Int64.minValue).text = "-9223372036854775808" ∧
    ¬ Denotes (Scalar.int Int64.minValue).text (.int Int64.minValue) := by
  refine ⟨by decide +kernel, ?_⟩
  rintro ⟨e, parsed, -⟩
  rw [parse_smallest] at parsed
  cases parsed

end Rulebook.Expression
