import Mathlib.Data.List.Perm.Basic
import Mathlib.Data.Multiset.Bind
import Rulebook.Proofs.Run.Deliveries
import Rulebook.Proofs.Run.Opening

/-!
# `Rulebook.Proofs.Run.Pairs` — every pair once

Both strategies have the same pairs of a fact and a rule to settle; they cut them differently. A unit of a rule covers
the pairs of the rule with all facts, one after the other, and it compiles its rule again, which cannot fail because the
registry is sound. A job of a pair covers that pair, with a unit or without. So every run, whatever the sink does and
in whatever order units work, settles every pair once, and nothing else reaches its summary or its log.

* `Settled` — a pair with a way to its outcome
* `Covers` — what a task delivers are the outcomes of its pairs
* `unitPairs` — the pairs of a run, cut into units
* `reaches_units` — every run settles its pairs unit by unit, and its log is an interleaving of the units
* `reaches_pairs` — so it settles every pair once
-/

namespace Rulebook.Run

variable {timeout : Nat}

/-- A pair of a fact and a rule with a way that leads its actions to an outcome. -/
structure Settled (timeout : Nat) where
  fact : Fact
  rule : CompiledRule
  trace : Trace
  outcome : Outcome
  traces : (rule.settle timeout fact).Traces trace outcome

namespace Settled

/-- The pair. -/
def pair (p : Settled timeout) : Fact × CompiledRule := (p.fact, p.rule)

/-- The outcome is one of the pair. -/
theorem isOf (p : Settled timeout) : p.outcome.IsOf p.rule p.fact := CompiledRule.settle_isOf p.traces

theorem place_outcome (p : Settled timeout) : Summary.place p.outcome = pairPlace p.pair := place_of_isOf p.isOf

theorem places_outcomes (ps : List (Settled timeout)) :
    (ps.map outcome).map Summary.place = (ps.map pair).map pairPlace := by
  rw [List.map_map, List.map_map]
  exact List.map_congr_left fun p _ => p.place_outcome

/-- The outcomes of pairs that were settled once have places of their own, apart from those of the fallbacks. -/
theorem places_nodup_of_once {keys : List String} {batch : RuleBatch} {records : List Value}
    {ps : List (Settled timeout)} (once : (ps.map pair).Perm (pairs (Opening.of keys batch records))) :
    ((fallbacks keys batch records ++ ps.map outcome).map Summary.place).Nodup := by
  rw [← opening_outcomes]
  refine pair_places_nodup keys batch records ?_
  rw [places_outcomes]
  exact once.map pairPlace

end Settled

/-! ## What tasks cover -/

/-- A task covers pairs: whatever way it takes, it delivers the outcomes of these pairs, and its trace is that of the
    pairs one after the other. -/
def Covers (timeout : Nat) (t : Task Delivery) (covered : List (Fact × CompiledRule)) : Prop :=
  ∀ tr d, t.Traces tr d → ∃ ps : List (Settled timeout),
    ps.map Settled.pair = covered ∧ d = .ok (ps.map Settled.outcome) ∧ tr = ps.flatMap Settled.trace

theorem settled_of_settleAll {r : CompiledRule} {facts : List Fact} {tr : Trace} {os : List Outcome}
    (h : (settleAll timeout r facts).Traces tr os) :
    ∃ ps : List (Settled timeout), ps.map Settled.pair = facts.map (·, r) ∧ os = ps.map Settled.outcome ∧
      tr = ps.flatMap Settled.trace := by
  induction facts generalizing tr os with
  | nil =>
      obtain ⟨rfl, rfl⟩ := Task.traces_done_iff.mp h
      exact ⟨[], rfl, rfl, rfl⟩
  | cons fact rest ih =>
      obtain ⟨o, tr₁, tr₂, first, second, rfl⟩ := Task.traces_bind_iff.mp h
      obtain ⟨os, others, rfl⟩ := Task.traces_map_iff.mp second
      obtain ⟨ps, pairs, rfl, rfl⟩ := ih others
      exact ⟨⟨fact, r, tr₁, o, first⟩ :: ps, congrArg ((fact, r) :: ·) pairs, rfl, rfl⟩

/-- The unit of a rule that compiles again covers the rule with all facts. -/
theorem covers_ruleUnit {r : CompiledRule} (recompiles : r.definition.compile = .ok r) (facts : List Fact) :
    Covers timeout (ruleUnit timeout facts r.definition).task (facts.map (·, r)) := by
  intro tr d h
  simp only [ruleUnit, recompiles] at h
  obtain ⟨os, all, rfl⟩ := Task.traces_map_iff.mp h
  obtain ⟨ps, pairs, rfl, trace⟩ := settled_of_settleAll all
  exact ⟨ps, pairs, rfl, trace⟩

/-- The job of a pair covers the pair, with a unit or without. -/
theorem covers_pairJob (fact : Fact) (r : CompiledRule) :
    Covers timeout (pairJob timeout fact r).task [(fact, r)] := by
  intro tr d h
  by_cases due : r.isDue fact = true
  · rw [pairJob, if_pos due] at h
    obtain ⟨o, settles, rfl⟩ := Task.traces_map_iff.mp h
    exact ⟨[⟨fact, r, tr, o, settles⟩], rfl, rfl, (List.append_nil tr).symm⟩
  · -- Where nothing is due the outcome is known, and settling the pair would lead to the same.
    rw [pairJob, if_neg due] at h
    obtain ⟨rfl, rfl⟩ := Task.traces_done_iff.mp h
    have settles : (r.settle timeout fact).Traces [] (r.evaluate fact) := by
      rw [CompiledRule.settle, CompiledRule.act, if_neg due]
      exact .done _
    exact ⟨[⟨fact, r, [], r.evaluate fact, settles⟩], rfl, rfl, rfl⟩

/-- Going over one list inside of another meets the same pairs as the other way round. -/
theorem flatMap_map_perm {α β γ : Type} (xs : List α) (ys : List β) (g : α → β → γ) :
    (xs.flatMap fun x => ys.map (g x)).Perm (ys.flatMap fun y => xs.map (g · y)) := by
  rw [← Multiset.coe_eq_coe, ← Multiset.coe_bind, ← Multiset.coe_bind]
  exact Multiset.bind_map_comm (xs : Multiset α) (ys : Multiset β)

/-- The parts of a list of lists, list by list, are those of all of its members. -/
theorem flatten_map_flatMap {α β : Type} (xss : List (List α)) (f : α → List β) :
    (xss.map (List.flatMap f)).flatten = xss.flatten.flatMap f := by
  rw [List.flatten_eq_flatMap, List.flatten_eq_flatMap, List.flatMap_assoc, List.flatMap_map]
  rfl

/-- The pairs of a run, cut into units: each rule with all facts, or each pair for itself. -/
def unitPairs (strategy : Strategy) (o : Opening) : List (List (Fact × CompiledRule)) :=
  match strategy with
  | .ruleParallel => o.registry.rules.map fun r => o.facts.map (·, r)
  | .recordSequential => (pairs o).map ([·])

/-- However they are cut, they are the pairs of the run. -/
theorem unitPairs_flatten (strategy : Strategy) (o : Opening) : (unitPairs strategy o).flatten.Perm (pairs o) := by
  cases strategy with
  | ruleParallel =>
      rw [unitPairs, ← List.flatMap_def]
      exact flatMap_map_perm o.registry.rules o.facts fun r fact => (fact, r)
  | recordSequential => rw [unitPairs, ← List.flatMap_def, List.flatMap_singleton']

/-- **The tasks of a run cover its pairs**, unit by unit, under both strategies. -/
theorem covers_initial (strategy : Strategy) (timeout : Nat) {o : Opening} (sound : o.registry.Sound) :
    ∃ ts : List (Task Delivery), (State.initial strategy timeout o).tasks = ↑ts ∧
      List.Forall₂ (Covers timeout) ts (unitPairs strategy o) := by
  rw [tasks_initial]
  cases strategy with
  | ruleParallel =>
      -- One task for each rule, which goes over all facts.
      refine ⟨_, rfl, ?_⟩
      rw [unitPairs, ruleUnits, List.map_map, List.forall₂_map_left_iff, List.forall₂_map_right_iff, List.forall₂_same]
      exact fun r hr => covers_ruleUnit (sound.recompiles r hr) o.facts
  | recordSequential =>
      -- One task for each pair, in the order of the facts.
      have jobs : pairJobs timeout o = (pairs o).map fun p => pairJob timeout p.1 p.2 := by
        rw [pairJobs, pairs, List.map_flatMap]
        refine List.flatMap_congr fun fact _ => ?_
        rw [List.map_map]
        rfl
      refine ⟨_, rfl, ?_⟩
      rw [unitPairs, jobs, List.map_map, List.forall₂_map_left_iff, List.forall₂_map_right_iff, List.forall₂_same]
      exact fun p _ => covers_pairJob p.1 p.2

/-! ## What endings deliver -/

/-- Endings of tasks that cover pairs settle these pairs, unit by unit: absorbing their results records the outcomes,
    and their traces are those of the pairs. -/
theorem settled_of_endings {es : List (Ending Delivery)} {covered : List (List (Fact × CompiledRule))}
    (h : List.Forall₂ (Covers timeout) (es.map Ending.task) covered) :
    ∃ units : List (List (Settled timeout)), units.map (List.map Settled.pair) = covered ∧
      (∀ s, (es.map Ending.result).foldl absorb s = (units.flatten.map Settled.outcome).foldl Summary.record s) ∧
      es.map Ending.trace = units.map fun ps => ps.flatMap Settled.trace := by
  induction es generalizing covered with
  | nil =>
      rw [List.map_nil, List.forall₂_nil_left_iff] at h
      subst h
      exact ⟨[], rfl, fun s => rfl, rfl⟩
  | cons e es ih =>
      obtain ⟨first, others, covers, rest, rfl⟩ := List.forall₂_cons_left_iff.mp h
      obtain ⟨ps, pairs, result, trace⟩ := covers e.trace e.result e.traces
      obtain ⟨units, pairs', results, traces⟩ := ih rest
      refine ⟨ps :: units, ?_, fun s => ?_, ?_⟩
      · rw [List.map_cons, pairs, pairs']
      · rw [List.flatten_cons, List.map_append, List.foldl_append, ← results, List.map_cons, List.foldl_cons, result]
        rfl
      · rw [List.map_cons, List.map_cons, trace, traces]

/-! ## Runs -/

variable {sink : Sink} {settings : EngineSettings} {batch : RuleBatch} {records : List Value} {x : Summary}
  {log : Log}

/-- **Every run settles its pairs unit by unit.** With a sink that obeys a rule, a run settles the pairs of each of its
    units one after the other. Its summary records the outcomes after those of the fallback, unit by unit in some order;
    what the sink was offered is an interleaving of the units, and all its verdicts are allowed. -/
theorem reaches_units {allowed : Emission → Verdict → Prop} (obeys : sink.Obeys allowed)
    (h : Reaches settings sink batch records x log) :
    let o := Opening.of settings.identityKeys batch records
    ∃ (units : List (List (Settled settings.actionTimeout))) (history : Trace),
      (units.map (List.map Settled.pair)).Perm (unitPairs settings.strategy o) ∧
      x = ((units.flatten.map Settled.outcome).foldl Summary.record o.summary).sorted ∧
      Interleaves (units.map fun ps => ps.flatMap Settled.trace) history ∧
      log = Log.empty.after history ∧ history.Obeys allowed := by
  intro o
  obtain ⟨permits, final, -, steps, isFinal, rfl, rfl⟩ := h
  obtain ⟨es, history, comes⟩ := steps.comesBy obeys isFinal
  obtain ⟨ts, tasks, covers⟩ := covers_initial settings.strategy settings.actionTimeout
    (registry_sound settings.identityKeys batch records)
  -- The endings are those of the tasks of the start, in the order in which they were absorbed.
  have perm : (es.map Ending.task).Perm ts := Multiset.coe_eq_coe.mp (comes.tasks.trans tasks)
  obtain ⟨covered, covers', reordered⟩ := List.perm_comp_forall₂ perm covers
  obtain ⟨units, settled, results, traces⟩ := settled_of_endings covers'
  refine ⟨units, history, ?_, ?_, ?_, ?_, comes.obeys⟩
  · rw [settled]
    exact reordered
  · rw [comes.summary, results]
    cases settings.strategy <;> rfl
  · rw [← traces]
    exact comes.interleaves
  · rw [comes.log]
    cases settings.strategy <;> rfl

/-- **Every run settles every pair once.** With a sink that obeys a rule, the summary of a run records one outcome of
    each pair, in some order, after those of the fallback; what the sink accepted are the records that it accepted from
    the pairs, and all its verdicts on them are allowed. -/
theorem reaches_pairs {allowed : Emission → Verdict → Prop} (obeys : sink.Obeys allowed)
    (h : Reaches settings sink batch records x log) :
    let o := Opening.of settings.identityKeys batch records
    ∃ ps : List (Settled settings.actionTimeout), (ps.map Settled.pair).Perm (pairs o) ∧
      x = ((ps.map Settled.outcome).foldl Summary.record o.summary).sorted ∧
      log.accepted.Perm (ps.flatMap fun p => p.trace.accepted) ∧ ∀ p ∈ ps, p.trace.Obeys allowed := by
  intro o
  obtain ⟨units, history, settled, summary, interleaves, rfl, tame⟩ := reaches_units obeys h
  have whole : history.Perm (units.flatten.flatMap Settled.trace) := by
    rw [← flatten_map_flatMap]
    exact interleaves.perm
  refine ⟨units.flatten, ?_, summary, ?_, ?_⟩
  · rw [List.map_flatten]
    exact settled.flatten.trans (unitPairs_flatten settings.strategy o)
  · rw [← Trace.accepted_flatMap]
    exact Trace.accepted_perm whole
  · intro p hp e he
    exact tame e (whole.mem_iff.mpr (List.mem_flatMap_of_mem hp he))

end Rulebook.Run
