import Rulebook.Proofs.Run.Pairs

/-!
# `Rulebook.Proofs.Run.Losses` — what a crash takes away

A summary counts the actions that its outcomes list. An outcome lists every action whose record the sink accepted, with
one exception: where the sink crashes after it has accepted a record of the pair, the outcome says only that, and what
was accepted before is lost. So the count of a summary is the number of records that the sink accepted exactly where
no pair of the run has lost one.

* `length_flatMap_eq_iff` — lengths compared part by part
* `accepted_listed_iff` — when the actions of a summary are those that the sink accepted
* `acceptance_lost` — a run in which they are not
-/

namespace Rulebook.Run

/-! ## Lengths part by part -/

section

variable {α β γ : Type} {xs : List α} {f : α → List β} {g : α → List γ}

theorem length_flatMap_le (le : ∀ x ∈ xs, (f x).length ≤ (g x).length) :
    (xs.flatMap f).length ≤ (xs.flatMap g).length := by
  induction xs with
  | nil => exact Nat.le_refl 0
  | cons x xs ih =>
      obtain ⟨first, rest⟩ := List.forall_mem_cons.mp le
      rw [List.flatMap_cons, List.flatMap_cons, List.length_append, List.length_append]
      exact Nat.add_le_add first (ih rest)

/-- Where each part of one list is as short as that of another one, the lists have one length exactly where all of
    their parts have. -/
theorem length_flatMap_eq_iff (le : ∀ x ∈ xs, (f x).length ≤ (g x).length) :
    (xs.flatMap f).length = (xs.flatMap g).length ↔ ∀ x ∈ xs, (f x).length = (g x).length := by
  induction xs with
  | nil => exact iff_of_true rfl nofun
  | cons x xs ih =>
      obtain ⟨first, rest⟩ := List.forall_mem_cons.mp le
      have others := length_flatMap_le rest
      rw [List.forall_mem_cons, ← ih rest, List.flatMap_cons, List.flatMap_cons, List.length_append, List.length_append]
      omega

end

/-! ## Runs -/

/-- An outcome lists as many actions as the sink accepted records, unless some were lost; then it lists none. -/
theorem Settled.length_applied {timeout : Nat} (p : Settled timeout) :
    p.outcome.applied.length ≤ p.trace.accepted.length ∧
      (p.outcome.applied.length = p.trace.accepted.length ↔ ¬ p.trace.Loses) := by
  by_cases loses : p.trace.Loses
  · have nothing : p.outcome.applied = [] := settled_applied_of_loses p.traces loses
    have some : p.trace.accepted.length ≠ 0 := fun h => loses.1 (List.length_eq_zero_iff.mp h)
    rw [nothing]
    exact ⟨Nat.zero_le _, iff_of_false some.symm (not_not_intro loses)⟩
  · have same := ((settled_lists_iff p.traces).mpr loses).length_eq
    exact ⟨Nat.le_of_eq same, iff_of_true same loses⟩

/-- **When the actions of a summary are those that the sink accepted.** Whatever the sink does with the records of a
    rule on a fact, the outcome lists the actions whose records it accepted if and only if it did not crash after
    accepting one. So in every run each pair has an outcome, what the sink accepted came from the pairs, and the
    summary counts as many actions as the sink accepted records if and only if no pair lost one. -/
theorem accepted_listed_iff (settings : EngineSettings) (sink : Sink) (batch : RuleBatch) (records : List Value) :
    (∀ (r : CompiledRule) (fact : Fact) (log : Log),
      let settled := (r.settle settings.actionTimeout fact).run sink log
      ∃ tr, (r.settle settings.actionTimeout fact).Traces tr settled.1 ∧ settled.2 = log.after tr ∧
        (settled.1.Lists r fact tr.accepted ↔ ¬ tr.Loses)) ∧
    ∀ x log, Reaches settings sink batch records x log →
      ∃ ps : List (Settled settings.actionTimeout),
        (ps.map Settled.pair).Perm (pairs (Opening.of settings.identityKeys batch records)) ∧
        log.accepted.Perm (ps.flatMap fun p => p.trace.accepted) ∧
        (∀ p ∈ ps, p.outcome ∈ x.outcomes ∧ (p.outcome.Lists p.rule p.fact p.trace.accepted ↔ ¬ p.trace.Loses)) ∧
        (x.actionsSucceeded = log.accepted.length ↔ ∀ p ∈ ps, ¬ p.trace.Loses) := by
  constructor
  · intro r fact log settled
    obtain ⟨tr, traces, -, after⟩ := Task.traces_run sink.obeys_anyVerdict (r.settle settings.actionTimeout fact) log
    exact ⟨tr, traces, after, settled_lists_iff traces⟩
  · intro x log reached
    obtain ⟨ps, once, rfl, accepted, -⟩ := reaches_pairs sink.obeys_anyVerdict reached
    refine ⟨ps, once, accepted, fun p hp => ⟨?_, settled_lists_iff p.traces⟩, ?_⟩
    · rw [recorded_summary, List.mem_mergeSort]
      exact List.mem_append_right _ (List.mem_map_of_mem hp)
    · rw [recorded_summary, accepted.length_eq, List.flatMap_map,
        length_flatMap_eq_iff fun p _ => p.length_applied.1]
      exact forall₂_congr fun p _ => p.length_applied.2

/-- A sink that accepts an alert and refuses the next one: the summary counts the one that was accepted. -/
theorem accepted_listed_iff_second_refused :
    let one : Value := .number (.int 1 (by decide))
    let batch : RuleBatch :=
      ⟨[⟨"a", ⟨.all, [.test (.literal "x" "==" one)]⟩, [.alert "one", .alert "two"]⟩], []⟩
    let records : List Value := [.object [("x", one)]]
    let sink : Sink := ⟨fun before _ => if before.isEmpty then .accept else .refuse "full"⟩
    ∃ x log, Reaches .standard sink batch records x log ∧ x.actionsSucceeded = 1 ∧ log.accepted.length = 1 ∧
      ∃ ps : List (Settled EngineSettings.standard.actionTimeout),
        (ps.map Settled.pair).Perm (pairs (Opening.of EngineSettings.standard.identityKeys batch records)) ∧
        log.accepted.Perm (ps.flatMap fun p => p.trace.accepted) ∧
        (∀ p ∈ ps, p.outcome ∈ x.outcomes ∧ (p.outcome.Lists p.rule p.fact p.trace.accepted ↔ ¬ p.trace.Loses)) ∧
        (x.actionsSucceeded = log.accepted.length ↔ ∀ p ∈ ps, ¬ p.trace.Loses) := by
  intro one batch records sink
  have ran : ∃ x log, run .standard sink batch records = .ok (x, log) ∧
      x.actionsSucceeded = 1 ∧ log.accepted.length = 1 := by
    subst one batch records sink
    exact ⟨_, _, rfl, rfl, rfl⟩
  obtain ⟨x, log, ended, counted, accepted⟩ := ran
  exact ⟨x, log, reaches_run ended, counted, accepted,
    (accepted_listed_iff .standard sink batch records).2 x log (reaches_run ended)⟩

/-- **Acceptance lost.** A rule with two alerts matches the one record; the sink accepts the first alert and crashes on
    the second one. Under both strategies the summary counts no action, and the outcome lists none. -/
theorem acceptance_lost :
    let one : Value := .number (.int 1 (by decide))
    let batch : RuleBatch :=
      ⟨[⟨"a", ⟨.all, [.test (.literal "x" "==" one)]⟩, [.alert "one", .alert "two"]⟩], []⟩
    let records : List Value := [.object [("campaign_id", one), ("x", one)]]
    let sink : Sink := ⟨fun before _ => if before.isEmpty then .accept else .crash (some "boom")⟩
    ∀ strategy, ∃ x log, Reaches { EngineSettings.standard with strategy } sink batch records x log ∧
      log.accepted.length = 1 ∧ x.actionsSucceeded = 0 ∧ ∀ o ∈ x.outcomes, o.applied = [] := by
  intro one batch records sink strategy
  have ran : ∃ x log, run { EngineSettings.standard with strategy } sink batch records = .ok (x, log) ∧
      log.accepted.length = 1 ∧ x.actionsSucceeded = 0 ∧ ∀ o ∈ x.outcomes, o.applied = [] := by
    subst one batch records sink
    cases strategy
    all_goals
      refine ⟨_, _, rfl, rfl, rfl, fun o ho => ?_⟩
      have ho : o ∈ [_] := List.mem_mergeSort.mp ho
      rw [List.mem_singleton.mp ho]
      rfl
  obtain ⟨x, log, ended, rest⟩ := ran
  exact ⟨x, log, reaches_run ended, rest⟩

end Rulebook.Run
