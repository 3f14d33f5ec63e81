import Rulebook.Proofs.Run.Permits

/-!
# `Rulebook.Proofs.Run.Agreement` — the order of units does not show

With a steady sink every pair of a rule and a fact has one outcome, whenever its actions are performed and
whatever happens between them. Every run settles every pair once, so both strategies record these outcomes, rule by
rule or fact by fact, and in whatever order units end. What is left to tell the strategies apart is whether there is a
summary at all: each of them makes a pool of permits by a setting of its own, and one pool may be too large where the
other is not.

* `pairOutcomes` — the outcomes of all pairs under a steady sink
* `reaches_records` — every run records these outcomes in some order
* `reaches_agree` — so summaries agree, whatever the strategies and the orders that lead to them
* `EndAlike`, `runs_agree_iff` — **two runs end alike exactly where both of them have permits**
* `strategies_part` — settings under which one strategy ends with a summary and the other aborts
-/

namespace Rulebook.Run

/-! ## The outcomes of all pairs -/

/-- The outcomes of all pairs when every record gets the verdict that `f` gives it. -/
def pairOutcomes (f : Emission → Verdict) (timeout : Nat) (o : Opening) : List Outcome :=
  o.facts.flatMap fun fact => o.registry.rules.map fun r => (r.settle timeout fact).resultUnder f

theorem settle_isOf (f : Emission → Verdict) (timeout : Nat) (r : CompiledRule) (fact : Fact) :
    ((r.settle timeout fact).resultUnder f).IsOf r fact := by
  obtain ⟨tr, traces, -⟩ := Task.traces_resultUnder f (r.settle timeout fact)
  exact CompiledRule.settle_isOf traces

theorem map_pairs (f : Emission → Verdict) (timeout : Nat) (o : Opening) :
    (pairs o).map (fun p => (p.2.settle timeout p.1).resultUnder f) = pairOutcomes f timeout o := by
  rw [pairs, pairOutcomes, List.map_flatMap]
  refine List.flatMap_congr fun fact _ => ?_
  rw [List.map_map]
  rfl

/-! ## Runs -/

variable {sink : Sink} {batch : RuleBatch} {records : List Value}

/-- **Every run records the outcomes of all pairs**, each once, after those of the fallback, in some order. -/
theorem reaches_records (steady : sink.Steady) {settings : EngineSettings} {x : Summary} {log : Log}
    (h : Reaches settings sink batch records x log) :
    let o := Opening.of settings.identityKeys batch records
    ∃ os : List Outcome, os.Perm (pairOutcomes (sink.verdict []) settings.actionTimeout o) ∧
      x = (os.foldl Summary.record o.summary).sorted := by
  intro o
  obtain ⟨ps, settled, summary, -, obeys⟩ := reaches_pairs steady.obeys h
  refine ⟨ps.map Settled.outcome, ?_, summary⟩
  -- Under a steady sink the outcome of a pair is the only one that it can have.
  have same : ps.map Settled.outcome =
      (ps.map Settled.pair).map fun p => (p.2.settle settings.actionTimeout p.1).resultUnder (sink.verdict []) := by
    rw [List.map_map]
    exact List.map_congr_left fun p hp => p.traces.eq_resultUnder (obeys p hp)
  rw [same, ← map_pairs]
  exact settled.map _

/-- **The summaries of any two runs agree.** Runs of one batch on one list of records under settings that differ in the
    strategy at most, in whatever order their units work, have the same outcomes and counts, and after the errors that
    both start with the same errors up to their order. -/
theorem reaches_agree (steady : sink.Steady) {settings : EngineSettings} {strategy strategy' : Strategy} {x y : Summary}
    {log log' : Log} (hx : Reaches { settings with strategy := strategy } sink batch records x log)
    (hy : Reaches { settings with strategy := strategy' } sink batch records y log') :
    Summary.Agrees (startErrors settings.identityKeys batch records) x y := by
  obtain ⟨os, perm, rfl⟩ := reaches_records steady hx
  obtain ⟨os', perm', rfl⟩ := reaches_records steady hy
  rw [← opening_errors]
  -- Both record the same outcomes, and sorting undoes the difference in order because places are distinct.
  refine Summary.agrees_of_perm (perm.trans perm'.symm) ?_
  have places := places_nodup settings.identityKeys batch records
    (settle_isOf (sink.verdict []) settings.actionTimeout)
  exact ((perm.append_left _).map _).nodup_iff.mpr places

/-- **Runs that end alike** under two settings. -/
structure EndAlike (settings settings' : EngineSettings) (sink : Sink) (batch : RuleBatch) (records : List Value) :
    Prop where
  /-- Under the first settings a run comes to a summary, in whatever order its units work. -/
  first : ∃ permits, Completes settings sink batch records permits
  /-- So does one under the second settings. -/
  second : ∃ permits, Completes settings' sink batch records permits
  /-- Any summary of the one agrees with any summary of the other. -/
  agree : ∀ x y log log', Reaches settings sink batch records x log → Reaches settings' sink batch records y log' →
    Summary.Agrees (startErrors settings.identityKeys batch records) x y

/-- **Which runs end alike.** With a steady sink, two runs of one batch on one list of records, under settings that differ
    in the strategy at most, end in whatever order their units work, and end with summaries that agree, exactly where
    the limits of both strategies are at most the largest size of a pool. -/
theorem runs_agree_iff (settings : EngineSettings) (batch : RuleBatch) (records : List Value) {sink : Sink}
    (steady : sink.Steady) (strategy strategy' : Strategy) :
    EndAlike { settings with strategy := strategy } { settings with strategy := strategy' } sink batch records ↔
      EngineSettings.limit { settings with strategy := strategy } ≤ maxPermits ∧
        EngineSettings.limit { settings with strategy := strategy' } ≤ maxPermits := by
  constructor
  · intro alike
    exact ⟨exists_completes_iff.mp alike.first, exists_completes_iff.mp alike.second⟩
  · rintro ⟨small, small'⟩
    exact {
      first := exists_completes_iff.mpr small
      second := exists_completes_iff.mpr small'
      agree := fun _ _ _ _ hx hy => reaches_agree steady hx hy }

/-- A batch with a rule, an entry that is no rule and a record that is no object, run both ways with as many permits as a
    pool can hold in the one and a single permit in the other. -/
theorem runs_agree_iff_both_ways :
    let one : Value := .number (.int 1 (by decide))
    let batch : RuleBatch :=
      ⟨[⟨"a", ⟨.all, [.test (.literal "x" "==" one)]⟩, [.alert "seen", .notify none "lost"]⟩], [⟨0, none⟩]⟩
    let records : List Value := [.object [("x", one)], .null, .object []]
    let settings := { EngineSettings.standard with maxWorkers := maxPermits, maxPendingActions := 0 }
    let parallel := { settings with strategy := .ruleParallel }
    let sequential := { settings with strategy := .recordSequential }
    Sink.accepting.Steady ∧ parallel.limit ≤ maxPermits ∧ sequential.limit ≤ maxPermits ∧
      EndAlike parallel sequential .accepting batch records ∧ ∃ x y log log',
        Reaches parallel .accepting batch records x log ∧ Reaches sequential .accepting batch records y log' ∧
        Summary.Agrees (startErrors settings.identityKeys batch records) x y := by
  intro one batch records settings parallel sequential
  have steady : Sink.accepting.Steady := fun _ _ _ => rfl
  have small : parallel.limit ≤ maxPermits := Nat.le_refl _
  have small' : sequential.limit ≤ maxPermits := Nat.zero_le _
  have alike : EndAlike parallel sequential .accepting batch records :=
    (runs_agree_iff settings batch records steady .ruleParallel .recordSequential).mpr ⟨small, small'⟩
  have ended : Reaches parallel .accepting batch records _ _ := reaches_run rfl
  have ended' : Reaches sequential .accepting batch records _ _ := reaches_run rfl
  exact ⟨steady, small, small', alike, _, _, _, _, ended, ended', alike.agree _ _ _ _ ended ended'⟩

/-- **One strategy ends and the other aborts.** Settings that decode, and differ in the strategy only, let 2⁶¹ rules work at
    a time. A rule with an alert matches a record. Record by record the run comes to its summary, and the alert is in it;
    rule by rule there is no summary. -/
theorem strategies_part :
    let limit : Value := .number (.int 2305843009213693952 (by decide))
    let config (strategy : Strategy) : Value := .object [("max_workers", limit), ("strategy", .string strategy.name)]
    let settings : EngineSettings := { EngineSettings.standard with maxWorkers := 2305843009213693952 }
    let parallel := { settings with strategy := .ruleParallel }
    let sequential := { settings with strategy := .recordSequential }
    let one : Value := .number (.int 1 (by decide))
    let batch : RuleBatch := ⟨[⟨"a", ⟨.all, [.test (.literal "x" "==" one)]⟩, [.alert "seen"]⟩], []⟩
    let records : List Value := [.object [("campaign_id", one), ("x", one)]]
    EngineSettings.decode? Form.strict (config .ruleParallel) = some parallel ∧
      EngineSettings.decode? Form.strict (config .recordSequential) = some sequential ∧ Sink.accepting.Steady ∧
      (∃ x log, Reaches sequential .accepting batch records x log ∧ x.actionsSucceeded = 1) ∧
      run parallel .accepting batch records = .error .tooManyPermits ∧
      (∀ x log, ¬ Reaches parallel .accepting batch records x log) ∧
      ¬ EndAlike parallel sequential .accepting batch records := by
  intro limit config settings parallel sequential one batch records
  have ran : ∃ x log, run sequential .accepting batch records = .ok (x, log) ∧ x.actionsSucceeded = 1 := by
    subst batch records one sequential settings
    exact ⟨_, _, rfl, rfl⟩
  obtain ⟨x, log, ended, counted⟩ := ran
  have large : maxPermits < parallel.limit := by decide
  obtain ⟨aborted, nothing⟩ := aborts .accepting batch records (permits?_eq_none_iff.mpr large)
  have apart : ¬ EndAlike parallel sequential .accepting batch records := by
    intro alike
    exact absurd (exists_completes_iff.mp alike.first) (Nat.not_le.mpr large)
  exact ⟨rfl, rfl, fun _ _ _ => rfl, ⟨x, log, reaches_run ended, counted⟩, aborted, nothing, apart⟩

end Rulebook.Run
