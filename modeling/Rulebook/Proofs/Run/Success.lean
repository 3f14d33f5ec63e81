import Rulebook.Proofs.Run.Pairs

/-!
# `Rulebook.Proofs.Run.Success` — no failure looks like success

A run succeeds when its summary has no errors. Every way to fail leaves one: what is left out at the start is reported
there, an action that fails is reported in the outcome of its pair, and so is a crash, in place of everything that
the actions of the pair had achieved. And nothing else is reported: an outcome with a result of every action has no
errors.

* `settled_without_errors_iff` — pairs without errors are those whose actions were all applied
* `isSuccess_iff` — what it takes for a run to succeed
-/

namespace Rulebook.Run

/-- Pairs that were settled once have no errors exactly where each of them that matched has an outcome with a result
    of every action of its rule. -/
theorem settled_without_errors_iff {timeout : Nat} {keys : List String} {batch : RuleBatch} {records : List Value}
    {ps : List (Settled timeout)} (once : (ps.map Settled.pair).Perm (pairs (Opening.of keys batch records))) :
    (∀ p ∈ ps, p.outcome.errors = []) ↔
      ∀ fact r, (fact, r) ∈ pairs (Opening.of keys batch records) → r.applies fact = true →
        ∃ o ∈ fallbacks keys batch records ++ ps.map Settled.outcome, o.IsOf r fact ∧ o.Completes r := by
  constructor
  · intro none fact r mem applies
    obtain ⟨p, hp, pair⟩ := List.mem_map.mp (once.mem_iff.mpr mem)
    cases pair
    exact ⟨p.outcome, List.mem_append_right _ (List.mem_map_of_mem hp), p.isOf,
      (settled_errors_nil_iff p.traces).mp (none p hp) applies⟩
  · intro complete p hp
    refine (settled_errors_nil_iff p.traces).mpr fun applies => ?_
    have mem : p.pair ∈ pairs (Opening.of keys batch records) := once.mem_iff.mp (List.mem_map_of_mem hp)
    obtain ⟨o, ho, isOf, completes⟩ := complete p.fact p.rule mem applies
    -- There is one outcome at the place of the pair, so the complete one is that of the pair.
    have place : Summary.place o = Summary.place p.outcome := by
      rw [p.place_outcome, Summary.place, isOf.rule, isOf.factIndex]
      rfl
    have same : o = p.outcome := List.inj_on_of_nodup_map (Settled.places_nodup_of_once once) ho
      (List.mem_append_right _ (List.mem_map_of_mem hp)) place
    exact same ▸ completes

/-- **No failure looks like success.** Under every sink runs end, and a run is a success if and only if every entry of
    the batch is a rule, every rule is registered, every record is an object, and every rule that matches a record has
    an outcome there with a result of each of its actions. -/
theorem isSuccess_iff (settings : EngineSettings) (sink : Sink) (batch : RuleBatch) (records : List Value) :
    (∀ permits, permits? settings = some permits → RunsEnd sink permits) ∧
    ∀ x log, Reaches settings sink batch records x log →
      let rules := (Registry.empty.registerAll batch.definitions).1.rules
      (x.isSuccess = true ↔
        batch.rejected = [] ∧ rules.map CompiledRule.definition = batch.definitions ∧
        (∀ v ∈ records, v.isObject = true) ∧
        ∀ i v fact, records[i]? = some v → Fact.ofRecord settings.identityKeys i v = .ok fact →
          ∀ r ∈ rules, r.applies fact = true → ∃ o ∈ x.outcomes, o.IsOf r fact ∧ o.Completes r) := by
  refine ⟨fun _ h => runsEnd (permits_pos h), ?_⟩
  intro x log reached rules
  obtain ⟨ps, once, rfl, -, -⟩ := reaches_pairs sink.obeys_anyVerdict reached
  have errors : (ps.map Settled.outcome).flatMap Outcome.errors = [] ↔ ∀ p ∈ ps, p.outcome.errors = [] := by
    rw [List.flatMap_eq_nil_iff, List.forall_mem_map]
  rw [Summary.isSuccess, recorded_summary, List.isEmpty_iff, List.append_eq_nil_iff, startErrors_nil_iff, errors,
    settled_without_errors_iff once, and_assoc, and_assoc]
  refine and_congr_right fun _ => and_congr_right fun _ => and_congr_right fun _ => ?_
  simp only [mem_pairs, List.mem_mergeSort]
  constructor
  · intro complete i v fact hv hf r hr
    exact complete fact r ⟨⟨i, v, hv, hf⟩, hr⟩
  · rintro complete fact r ⟨⟨i, v, hv, hf⟩, hr⟩
    exact complete i v fact hv hf r hr

/-- A sink that accepts the first of two alerts and crashes on the second one: the run is no success. -/
theorem isSuccess_iff_second_crashed :
    let one : Value := .number (.int 1 (by decide))
    let batch : RuleBatch :=
      ⟨[⟨"a", ⟨.all, [.test (.literal "x" "==" one)]⟩, [.alert "first", .alert "second"]⟩], []⟩
    let records : List Value := [.object [("x", one)]]
    let sink : Sink := ⟨fun before _ => if before.isEmpty then .accept else .crash none⟩
    let rules := (Registry.empty.registerAll batch.definitions).1.rules
    ∃ x log, Reaches .standard sink batch records x log ∧ x.isSuccess = false ∧
      (x.isSuccess = true ↔
        batch.rejected = [] ∧ rules.map CompiledRule.definition = batch.definitions ∧
        (∀ v ∈ records, v.isObject = true) ∧
        ∀ i v fact, records[i]? = some v → Fact.ofRecord EngineSettings.standard.identityKeys i v = .ok fact →
          ∀ r ∈ rules, r.applies fact = true → ∃ o ∈ x.outcomes, o.IsOf r fact ∧ o.Completes r) := by
  intro one batch records sink rules
  have ran : ∃ x log, run .standard sink batch records = .ok (x, log) ∧ x.isSuccess = false := by
    subst one batch records sink
    exact ⟨_, _, rfl, rfl⟩
  obtain ⟨x, log, ended, failed⟩ := ran
  exact ⟨x, log, reaches_run ended, failed,
    (isSuccess_iff .standard sink batch records).2 x log (reaches_run ended)⟩

end Rulebook.Run
