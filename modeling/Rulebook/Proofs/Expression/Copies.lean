import Rulebook.Proofs.Expression.Updates

/-!
# `Rulebook.Proofs.Expression.Copies` — expressions that are one field

An update whose expression is one field copies the value of the field. On its way the value is a scalar, and there are
two kinds of numbers among scalars: integers of 64 bits with a sign, and floats. A JSON number can also be an integer of
64 bits without a sign. Those from 2⁶³ on have no scalar of their own: they are read as floats, and the copy is the float
nearest to the integer. All other scalar values come back as they are, floats as floats and integers as integers.

* `Value.IsUnsigned` — the integers that are too large for 64 bits with a sign
* `toValue?_scalarOf`, `scalarOf_of_isUnsigned` — a value on its way through a scalar
* `copies_iff` — **a field is copied exactly** unless it is such an integer
-/

namespace Rulebook

/-! ## Values -/

/-- The kinds of values that expressions work on. -/
def Value.isScalar : Value → Bool
  | bool _ | string _ | number _ => true
  | _ => false

/-- An integer that does not fit 64 bits with a sign, but fits them without one. -/
def Value.IsUnsigned (v : Value) : Prop := ∃ n h, v = .number (.int n h) ∧ 0x8000000000000000 ≤ n

namespace Expression

/-- An integer that is not too large fits 64 bits with a sign. -/
theorem isInt64_of_not_isUnsigned {n : Int} {h : IsWord n} (small : ¬ (Value.number (.int n h)).IsUnsigned) :
    IsInt64 n := by
  refine ⟨h.1, Int.not_le.mp fun large => small ⟨n, h, rfl, large⟩⟩

/-- The values of the scalar kinds have a scalar. -/
theorem exists_scalarOf {v : Value} (scalar : v.isScalar = true) : ∃ a, scalarOf v = .ok a := by
  cases v with
  | bool b => exact ⟨_, rfl⟩
  | string s => exact ⟨_, rfl⟩
  | number n =>
      cases n with
      | int n isWord =>
          rw [scalarOf]
          split
          · exact ⟨_, rfl⟩
          · exact ⟨_, rfl⟩
      | float x => exact ⟨_, rfl⟩
  | _ => cases scalar

/-- **A value that is read is written back as it was**, unless it is an integer that is too large. -/
theorem toValue?_scalarOf {v : Value} {a : Scalar} (read : scalarOf v = .ok a) (small : ¬ v.IsUnsigned) :
    a.toValue? = some v := by
  cases v with
  | bool b =>
      cases read
      rfl
  | string s =>
      cases read
      rfl
  | number n =>
      cases n with
      | int n isWord =>
          have fits := isInt64_of_not_isUnsigned small
          rw [scalarOf, if_pos fits] at read
          cases read
          simp only [Scalar.toValue?, Number.ofInt64, fits.toInt_ofInt]
      | float x =>
          cases read
          rfl
  | _ => cases read

/-- **An integer that is too large is read as the float nearest to it**, which is finite. -/
theorem scalarOf_of_isUnsigned {n : Int} (h : IsWord n) (large : 0x8000000000000000 ≤ n) :
    ∃ x, Binary64.ofInt n = .finite x ∧ scalarOf (.number (.int n h)) = .ok (.float (.finite x)) := by
  have size : n.natAbs ≤ Nat.pow 2 64 := by
    have below := h.2
    show n.natAbs ≤ 0x10000000000000000
    omega
  obtain ⟨x, nearest⟩ := Binary64.exists_ofInt_eq_finite size
  refine ⟨x, nearest, ?_⟩
  rw [scalarOf, if_neg fun fits => absurd fits.2 (Int.not_lt.mpr large), Number.toBinary64, nearest]

/-! ## Expressions -/

/-- **A field is copied exactly unless it is an integer of 2⁶³ or more.** A source that is one path token is an
    expression. On every fact where the path leads to a truth value, a text or a number, its JSON value is that value if
    and only if the value is not such an integer; and for such an integer it is a float, to which no finite float is
    preferable: the float nearest to the integer. -/
theorem copies_iff {source name : String} {span : Span} (token : lex source = .ok [⟨.path name, span⟩]) :
    ∃ e p, Expression.parse source = .ok e ∧ Path.parse source = .ok p ∧
      ∀ fact v, fact.get p = some v → v.isScalar = true →
        (e.evaluateValue fact = .ok v ↔ ¬ v.IsUnsigned) ∧
        ∀ n h, v = .number (.int n h) → 0x8000000000000000 ≤ n →
          ∃ x, e.evaluateValue fact = .ok (.number (.float x)) ∧ Binary64.ofInt n = .finite x ∧
            ∀ y : Binary64.Finite,
              (x.signed - n * Binary64.one).natAbs ≤ (y.signed - n * Binary64.one).natAbs := by
  obtain ⟨p, i, path, parsed⟩ := parse_of_lex_field token
  refine ⟨_, p, parsed, path, ?_⟩
  intro fact v found scalar
  have rounded : ∀ n h, v = .number (.int n h) → 0x8000000000000000 ≤ n →
      ∃ x, evaluateValue ⟨source, .field p i⟩ fact = .ok (.number (.float x)) ∧ Binary64.ofInt n = .finite x := by
    rintro n h rfl large
    obtain ⟨x, nearest, read⟩ := scalarOf_of_isUnsigned h large
    exact ⟨x, evaluateValue_eq_ok_iff.mpr ⟨_, evaluate_field found read source i, rfl⟩, nearest⟩
  refine ⟨⟨?_, ?_⟩, ?_⟩
  · rintro value ⟨n, h, rfl, large⟩
    obtain ⟨x, copy, -⟩ := rounded n h rfl large
    cases value.symm.trans copy
  · intro small
    obtain ⟨a, read⟩ := exists_scalarOf scalar
    exact evaluateValue_eq_ok_iff.mpr ⟨a, evaluate_field found read source i, toValue?_scalarOf read small⟩
  · intro n h same large
    obtain ⟨x, copy, nearest⟩ := rounded n h same large
    exact ⟨x, copy, nearest, Binary64.ofInt_nearest nearest⟩

/-- The last integer that is copied exactly, and the first one that is not, in a field of an object. -/
theorem copies_iff_edges :
    let fact (n : Int) (h : IsWord n) : Fact := ⟨0, none, [("budget", .object [("total", .number (.int n h))])]⟩
    lex "budget.total" = .ok [⟨.path "budget.total", ⟨0, 12⟩⟩] ∧
    ∃ e p, Expression.parse "budget.total" = .ok e ∧ Path.parse "budget.total" = .ok p ∧
      (∀ n h, (fact n h).get p = some (.number (.int n h))) ∧
      e.evaluateValue (fact 0x7fffffffffffffff (by decide)) = .ok (.number (.int 0x7fffffffffffffff (by decide))) ∧
      ∃ x, e.evaluateValue (fact 0x8000000000000000 (by decide)) = .ok (.number (.float x)) := by
  intro fact
  let q : Path := ⟨⟨"budget", by decide⟩, [⟨"total", by decide⟩]⟩
  have token : lex "budget.total" = .ok [⟨.path "budget.total", ⟨0, 12⟩⟩] := rfl
  have known : Path.parse "budget.total" = .ok q := rfl
  have found : ∀ n h, (fact n h).get q = some (.number (.int n h)) := fun _ _ => rfl
  obtain ⟨e, p, parsed, path, copies⟩ := copies_iff token
  cases known.symm.trans path
  have small : ¬ (Value.number (.int 0x7fffffffffffffff (by decide))).IsUnsigned := by
    rintro ⟨n, h, same, large⟩
    cases same
    exact absurd large (by decide)
  obtain ⟨x, rounded, -⟩ := (copies _ _ (found 0x8000000000000000 (by decide)) rfl).2 _ _ rfl (by decide)
  exact ⟨token, e, q, parsed, known, found, (copies _ _ (found _ _) rfl).1.mpr small, x, rounded⟩

/-- **The largest integer is not copied**: the field holds 2⁶⁴ - 1, and the value of the expression is the float 2⁶⁴. -/
theorem copy_rounds :
    let v := Value.number (.int 18446744073709551615 (by decide))
    let fact : Fact := ⟨0, none, [("x", v)]⟩
    lex "x" = .ok [⟨.path "x", ⟨0, 1⟩⟩] ∧
    ∃ e p x, Expression.parse "x" = .ok e ∧ Path.parse "x" = .ok p ∧ fact.get p = some v ∧ v.isScalar = true ∧
      e.evaluateValue fact = .ok (.number (.float x)) ∧ e.evaluateValue fact ≠ .ok v ∧
      x.units = 18446744073709551616 * Binary64.one := by
  intro v fact
  let p : Path := ⟨⟨"x", by decide⟩, []⟩
  have parsed : Expression.parse "x" = .ok ⟨"x", .field p ⟨0, 1⟩⟩ := rfl
  have found : fact.get p = some v := rfl
  obtain ⟨x, nearest, read⟩ := scalarOf_of_isUnsigned (n := 18446744073709551615) (by decide) (by decide)
  have copy : evaluateValue ⟨"x", .field p ⟨0, 1⟩⟩ fact = .ok (.number (.float x)) :=
    evaluateValue_eq_ok_iff.mpr ⟨_, evaluate_field found read "x" ⟨0, 1⟩, rfl⟩
  refine ⟨rfl, _, p, x, parsed, rfl, found, rfl, copy, ?_, ?_⟩
  · intro same
    have kinds : Value.number (.float x) = .number (.int 18446744073709551615 (by decide)) :=
      Except.ok.inj (copy.symm.trans same)
    cases kinds
  · have units : Binary64.ofInt 18446744073709551615 =
        .finite ⟨false, 18446744073709551616 * Binary64.one, by decide +kernel⟩ := by decide +kernel
    rw [units] at nearest
    cases nearest
    rfl

end Expression

end Rulebook
