import Rulebook.Proofs.Run.Agreement

/-!
# `Rulebook.Proofs.Run.Dispatch` — facts dispatched one by one

There is a way to the outcomes of a batch without a run: a registry dispatches a fact, which means that it performs its
rules on the fact in their order and appends the fallback. A crash would end the whole dispatch, where a run keeps it
inside of its pair. With a steady sink that never crashes the two come to the same: each pair of a rule and a fact has
one outcome wherever it is settled, so dispatching all facts yields the outcomes of a run in another order, and sorting
undoes the difference.

* `Registry.dispatchEach` — the outcomes of all rules on facts, one fact after the other
* `dispatchEach_resultUnder` — they are the outcomes of the pairs and the fallbacks
* `dispatch_refines_runs` — sorted, they are the outcomes of every run
-/

namespace Rulebook

/-! ## One pair -/

variable {f : Emission → Verdict} {timeout : Nat}

/-- Where nothing crashes, the actions of a rule come to the outcome that settling the pair comes to. -/
theorem CompiledRule.act_resultUnder (calm : ∀ s, noCrash s (f s)) (r : CompiledRule) (fact : Fact) :
    (r.act timeout fact).resultUnder f = .ok ((r.settle timeout fact).resultUnder f) := by
  obtain ⟨tr, traces, obeys⟩ := Task.traces_resultUnder f (r.act timeout fact)
  rw [settle, Task.resultUnder_map]
  cases result : (r.act timeout fact).resultUnder f with
  | ok o => rfl
  | error c =>
      rw [result] at traces
      exact absurd (obeys.calm calm) (act_error traces)

namespace Registry

/-! ## One fact -/

/-- Where nothing crashes, rules come to their outcomes on a fact, one after the other. -/
theorem dispatchAll_resultUnder (calm : ∀ s, noCrash s (f s)) (fact : Fact) (last : List Outcome)
    (rules : List CompiledRule) :
    (dispatchAll timeout fact last rules).resultUnder f =
      .ok (rules.map (fun r => (r.settle timeout fact).resultUnder f) ++ last) := by
  induction rules with
  | nil => rfl
  | cons r rest ih =>
      rw [dispatchAll, Task.resultUnder_bind, r.act_resultUnder calm]
      show Task.resultUnder f (Task.map _ (dispatchAll timeout fact last rest)) = _
      rw [Task.resultUnder_map, ih]
      rfl

/-! ## One fact after the other -/

/-- The outcomes of all rules on facts with their actions, one fact after the other, each with its fallback. -/
def dispatchEach (timeout : Nat) (g : Registry) : List Fact → Task (Except Crash (List Outcome))
  | [] => .done (.ok [])
  | fact :: rest =>
    (g.dispatch timeout fact).bind fun
      | .error c => .done (.error c)
      | .ok os => (dispatchEach timeout g rest).map fun x => x.map (os ++ ·)

/-- The outcomes of the pairs of all rules with facts when every record gets the verdict that `f` gives it, fact by
    fact, each with its fallback. -/
def outcomesUnder (f : Emission → Verdict) (timeout : Nat) (g : Registry) (facts : List Fact) : List Outcome :=
  facts.flatMap fun fact => g.rules.map (fun r => (r.settle timeout fact).resultUnder f) ++ (fallback? fact).toList

/-- **Where nothing crashes, dispatching facts** yields the outcomes of their pairs and their fallbacks, one fact after
    the other. -/
theorem dispatchEach_resultUnder (calm : ∀ s, noCrash s (f s)) (g : Registry) (facts : List Fact) :
    (g.dispatchEach timeout facts).resultUnder f = .ok (g.outcomesUnder f timeout facts) := by
  induction facts with
  | nil => rfl
  | cons fact rest ih =>
      rw [dispatchEach, Task.resultUnder_bind, dispatch, dispatchAll_resultUnder calm]
      show Task.resultUnder f (Task.map _ (g.dispatchEach timeout rest)) = _
      rw [Task.resultUnder_map, ih]
      rfl

end Registry

namespace Run

/-! ## Runs -/

/-- What dispatching the facts of a run yields are the fallbacks and the outcomes of all pairs. -/
theorem outcomesUnder_perm (f : Emission → Verdict) (timeout : Nat) (keys : List String) (batch : RuleBatch)
    (records : List Value) :
    let o := Opening.of keys batch records
    (o.registry.outcomesUnder f timeout o.facts).Perm (fallbacks keys batch records ++ pairOutcomes f timeout o) := by
  intro o
  rw [fallbacks, List.filterMap_eq_flatMap_toList]
  exact (List.flatMap_append_perm o.facts _ _).symm.trans List.perm_append_comm

/-- **Dispatch refines to a run.** A steady sink that never crashes is given the facts of the records that are objects,
    each with its place, one after the other, by a registry of the rules of a batch. Whatever the sink was offered
    before, this comes to its end; and whatever the strategy and the order of units, the outcomes of a run of the
    batch on the records are those that were dispatched, sorted by fact and rule. -/
theorem dispatch_refines_runs (settings : EngineSettings) (batch : RuleBatch) (records : List Value) {sink : Sink}
    (steady : sink.Steady) (calm : sink.NeverCrashes) (before : Log) :
    let registry := (Registry.empty.registerAll batch.definitions).1
    let facts := records.zipIdx.filterMap fun x => (Fact.ofRecord settings.identityKeys x.2 x.1).toOption
    ∃ os, ((registry.dispatchEach settings.actionTimeout facts).run sink before).1 = .ok os ∧
      ∀ strategy x log, Reaches { settings with strategy := strategy } sink batch records x log →
        x.outcomes = os.mergeSort Summary.inOrder := by
  intro registry facts
  have same : facts = (Opening.of settings.identityKeys batch records).facts :=
    (factsFrom_eq_filterMap settings.identityKeys 0 records).symm
  refine ⟨registry.outcomesUnder (sink.verdict []) settings.actionTimeout facts, ?_, ?_⟩
  · rw [Task.run_eq_resultUnder steady, Registry.dispatchEach_resultUnder (calm [])]
  · intro strategy x log reached
    obtain ⟨os, perm, rfl⟩ := reaches_records steady reached
    have dispatched := outcomesUnder_perm (sink.verdict []) settings.actionTimeout settings.identityKeys batch records
    -- Each pair has its own place in a summary, and so has each fallback; so there is one way to sort them.
    have places : ((fallbacks settings.identityKeys batch records ++ pairOutcomes (sink.verdict [])
        settings.actionTimeout (Opening.of settings.identityKeys batch records)).map Summary.place).Nodup := by
      rw [← opening_outcomes]
      exact places_nodup settings.identityKeys batch records (settle_isOf (sink.verdict []) settings.actionTimeout)
    rw [recorded_summary, same]
    refine Summary.sorted_outcomes_eq ?_ ((perm.append_left _).trans dispatched.symm)
    exact ((perm.append_left _).map _).nodup_iff.mpr places

/-- Two rules on a record with an identity, on one without and on a value that is no object; the sink refuses alerts. -/
theorem dispatch_refines_runs_anonymous :
    let one : Value := .number (.int 1 (by decide))
    let applies : Group := ⟨.all, [.test (.literal "x" "==" one)]⟩
    let batch : RuleBatch :=
      ⟨[⟨"zero", applies, [.update "x" "x + 1", .alert "seen"]⟩, ⟨"a", applies, [.notify (some "ops") "found"]⟩], []⟩
    let records : List Value := [.object [("id", one), ("x", one)], .null, .object [("x", one)]]
    let sink : Sink := ⟨fun _ r => if r.kind = .alert then .refuse "full" else .accept⟩
    let registry := (Registry.empty.registerAll batch.definitions).1
    let facts := records.zipIdx.filterMap fun x => (Fact.ofRecord EngineSettings.standard.identityKeys x.2 x.1).toOption
    sink.Steady ∧ sink.NeverCrashes ∧
      (∃ x log, Reaches { EngineSettings.standard with strategy := .recordSequential } sink batch records x log ∧
        x.totalPairs = 4 ∧ x.fallbackMatches = 1) ∧
      ∃ os, ((registry.dispatchEach EngineSettings.standard.actionTimeout facts).run sink Log.empty).1 = .ok os ∧
        ∀ strategy x log, Reaches { EngineSettings.standard with strategy := strategy } sink batch records x log →
          x.outcomes = os.mergeSort Summary.inOrder := by
  intro one applies batch records sink registry facts
  have steady : sink.Steady := fun _ _ _ => rfl
  have calm : sink.NeverCrashes := by
    intro before r
    show (if r.kind = .alert then Verdict.refuse "full" else Verdict.accept).isCrash = false
    split <;> rfl
  have ran : ∃ x log, run { EngineSettings.standard with strategy := .recordSequential } sink batch records =
      .ok (x, log) ∧ x.totalPairs = 4 ∧ x.fallbackMatches = 1 := by
    subst one applies batch records sink
    exact ⟨_, _, rfl, rfl, rfl⟩
  obtain ⟨x, log, ended, counted⟩ := ran
  exact ⟨steady, calm, ⟨x, log, reaches_run ended, counted⟩,
    dispatch_refines_runs EngineSettings.standard batch records steady calm Log.empty⟩

end Run

end Rulebook
