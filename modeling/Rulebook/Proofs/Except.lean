/-!
# `Rulebook.Proofs.Except` — computations that can fail

What is known of a computation that did not fail: every part of it did not fail either. The inversion lemmas take
such a computation apart, so that proofs about checks, parsers and evaluators go from one part to the next.

* `bind_eq_ok` — one computation after another;
* `toOption_eq_some_iff` — a computation with its errors forgotten;
* `mapError_eq_ok`, `mapError_eq_error` — a computation with its errors rephrased.
-/

namespace Rulebook

variable {ε ε' α β : Type}

/-- A computation in two parts succeeds when the first part does and the second one, with its result, does. -/
theorem bind_eq_ok {first : Except ε α} {second : α → Except ε β} {b : β} :
    (first >>= second) = .ok b ↔ ∃ a, first = .ok a ∧ second a = .ok b := by
  cases first with
  | error e =>
      constructor
      · intro h
        cases h
      · rintro ⟨a, h, -⟩
        cases h
  | ok a =>
      constructor
      · intro h
        exact ⟨a, rfl, h⟩
      · rintro ⟨a', h, h'⟩
        cases h
        exact h'

@[simp] theorem mapError_ok (a : α) (rephrase : ε → ε') : (Except.ok a).mapError rephrase = .ok a := rfl

@[simp] theorem mapError_error (e : ε) (rephrase : ε → ε') :
    (Except.error e : Except ε α).mapError rephrase = .error (rephrase e) := rfl

/-- What a computation gives when its errors are forgotten is its result. -/
theorem toOption_eq_some_iff {check : Except ε α} {a : α} : check.toOption = some a ↔ check = .ok a := by
  cases check with
  | error e => simp [Except.toOption]
  | ok b => simp [Except.toOption]

/-- Rephrasing errors makes no computation succeed or fail. -/
theorem mapError_eq_ok {check : Except ε α} {rephrase : ε → ε'} {a : α} :
    check.mapError rephrase = .ok a ↔ check = .ok a := by
  cases check with
  | error e => exact ⟨nofun, nofun⟩
  | ok b => exact ⟨fun h => by cases h; rfl, fun h => by cases h; rfl⟩

/-- An error that is rephrased was one before. -/
theorem mapError_eq_error {check : Except ε α} {rephrase : ε → ε'} {e : ε'} :
    check.mapError rephrase = .error e ↔ ∃ e', check = .error e' ∧ rephrase e' = e := by
  cases check with
  | error e' => exact ⟨fun h => ⟨e', rfl, Except.error.inj h⟩, fun ⟨_, h, h'⟩ => by cases h; exact congrArg _ h'⟩
  | ok a => exact ⟨nofun, fun ⟨_, h, _⟩ => nomatch h⟩

end Rulebook
