import Rulebook.Proofs.Expression.Comparison
import Rulebook.Proofs.Fact
import Rulebook.Proofs.Reading

/-!
# `Rulebook.Proofs.Expression.Updates` — what later evaluations see of an update

An update writes the value of an expression into a fact, and later actions evaluate their expressions on the fact that
it leaves. The value is a JSON value on its way: a scalar becomes one when it is written, and the field becomes a scalar
when it is read. Nothing is lost between the two, not the kind of a number either, because integers are written as
integers and floats as floats. An expression that reads no field on the way to the target or below it does not notice
the update, whether it has a value or fails.

* `scalarOf_toValue?` — a scalar that is written is read as that scalar
* `evaluateValue_eq_ok_iff` — when an expression has a JSON value
* `parse_of_lex_field`, `parse_of_lex_name` — a path that is one token is the expression of that field
* `evaluate_after_update` — **an update is seen at its target** and by no expression that reads apart from it
-/

namespace Rulebook.Expression

/-! ## Scalars on their way through a fact -/

/-- **A scalar that is written is read as that scalar**, of the same kind. -/
theorem scalarOf_toValue? {a : Scalar} {v : Value} (h : a.toValue? = some v) : scalarOf v = .ok a := by
  cases a with
  | int n =>
      cases h
      -- An integer of 64 bits is read as an integer, and its bits are the same.
      show (if IsInt64 n.toInt then Except.ok (Scalar.int (.ofInt n.toInt)) else _) = _
      rw [if_pos (isInt64_toInt n), Int64.ofInt_toInt]
  | float x =>
      cases x with
      | finite x =>
          cases h
          rfl
      | infinite negative => cases h
      | nan => cases h
  | string s =>
      cases h
      rfl
  | bool b =>
      cases h
      rfl

/-- An expression has a JSON value when it evaluates to a scalar that has one. -/
theorem evaluateValue_eq_ok_iff {e : Expression} {f : Fact} {v : Value} :
    e.evaluateValue f = .ok v ↔ ∃ a, e.evaluate f = .ok a ∧ a.toValue? = some v := by
  rw [evaluateValue, bind_eq_ok]
  refine exists_congr fun a => and_congr_right fun _ => ?_
  cases a.toValue? with
  | none =>
      constructor
      · intro h; cases h
      · intro h; cases h
  | some w => exact ⟨fun h => congrArg some (Except.ok.inj h), fun h => congrArg Except.ok (Option.some.inj h)⟩

/-! ## Fields -/

/-- **A source that is one path token** is the expression of that field. -/
theorem parse_of_lex_field {source name : String} {span : Span} (token : lex source = .ok [⟨.path name, span⟩]) :
    ∃ p i, Path.parse source = .ok p ∧ Expression.parse source = .ok ⟨source, .field p i⟩ := by
  have single : Derives 63 .comparison [.path name] (.leaf (.path name)) :=
    .sum (.single (.single (.primary (.operand trivial))))
  obtain ⟨node, parsed, shows⟩ := parse_of_derives token single trivial
  obtain ⟨p, i, rfl, named⟩ := Tree.outline_eq_path shows.outline
  exact ⟨p, i, path_of_lex token named, parsed⟩

/-- **The text of a path that is one token** is read as the expression of that field. -/
theorem parse_of_lex_name {p : Path} {name : String} {span : Span} (token : lex p.text = .ok [⟨.path name, span⟩]) :
    ∃ i, Expression.parse p.text = .ok ⟨p.text, .field p i⟩ := by
  obtain ⟨q, i, same, parsed⟩ := parse_of_lex_field token
  -- The text of the path is read as the path, so the field in the tree is the path itself.
  rw [Path.parse_text] at same
  cases same
  exact ⟨i, parsed⟩

/-- The value of a field that has a scalar. -/
theorem evaluate_field {f : Fact} {p : Path} {v : Value} {a : Scalar} (found : f.get p = some v)
    (scalar : scalarOf v = .ok a) (source : String) (i : Span) :
    Expression.evaluate ⟨source, .field p i⟩ f = .ok a := by
  rw [evaluate, Tree.evaluate, found]
  show ((located i (scalarOf v)).mapError _ : Except ExpressionError Scalar) = .ok a
  rw [scalar]
  rfl

/-! ## Updates -/

/-- **An update is seen at its target, and nowhere apart from it.** An expression has a value on a fact, the value can
    be written at a path, and the text of the path is one token. On the fact after the write, that text is an expression
    with the very scalar that was written; and every expression that reads only fields apart from the path, neither
    equal to it, nor on the way to it, nor below it, comes to what it came to before, be it a scalar or an error. -/
theorem evaluate_after_update {f g : Fact} {e : Expression} {v : Value} {p : Path} {name : String} {span : Span}
    (value : e.evaluateValue f = .ok v) (token : lex p.text = .ok [⟨.path name, span⟩])
    (written : f.set p v = (g, none)) :
    (∃ a t, e.evaluate f = .ok a ∧ Expression.parse p.text = .ok t ∧ t.evaluate g = .ok a) ∧
    ∀ e' : Expression, (∀ q ∈ e'.fields, p.Apart q) → e'.evaluate g = e'.evaluate f := by
  constructor
  · obtain ⟨a, evaluated, json⟩ := evaluateValue_eq_ok_iff.mp value
    obtain ⟨i, parsed⟩ := parse_of_lex_name token
    exact ⟨a, _, evaluated, parsed, evaluate_field (Fact.get_set_self written) (scalarOf_toValue? json) p.text i⟩
  · intro e' apart
    refine evaluate_congr fun q hq => ?_
    have elsewhere := Fact.get_set_apart (apart q hq) f v
    rwa [written] at elsewhere

/-- A quotient of two integers, which is a float, written below an object that is not there yet. -/
theorem evaluate_after_update_new_object :
    let f : Fact := ⟨0, none, [("x", .number (.int 7 (by decide)))]⟩
    let p : Path := ⟨⟨"pacing", by decide⟩, [⟨"rate", by decide⟩]⟩
    ∃ e v g, Expression.parse "x / 2" = .ok e ∧ e.evaluateValue f = .ok v ∧
      lex p.text = .ok [⟨.path "pacing.rate", ⟨0, 11⟩⟩] ∧ f.set p v = (g, none) ∧
      (∃ a t, e.evaluate f = .ok a ∧ Expression.parse p.text = .ok t ∧ t.evaluate g = .ok a) ∧
      ∀ e' : Expression, (∀ q ∈ e'.fields, p.Apart q) → e'.evaluate g = e'.evaluate f := by
  intro f p
  have valued : ∃ e, Expression.parse "x / 2" = .ok e ∧ (e.evaluateValue f).isOk = true := by
    subst f
    exact ⟨_, rfl, by decide +kernel⟩
  obtain ⟨e, parsed, isOk⟩ := valued
  cases value : e.evaluateValue f with
  | error problem =>
      rw [value] at isOk
      cases isOk
  | ok v =>
      have text : p.text = "pacing.rate" := by
        subst p
        decide
      have token : lex p.text = .ok [⟨.path "pacing.rate", ⟨0, 11⟩⟩] := by
        rw [text]
        rfl
      exact ⟨e, v, _, parsed, value, token, rfl, evaluate_after_update value token rfl⟩

end Rulebook.Expression
