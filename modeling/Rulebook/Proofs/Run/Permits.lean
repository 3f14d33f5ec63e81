import Rulebook.Proofs.Run.Queue

/-!
# `Rulebook.Proofs.Run.Permits` — which settings let a run come to its summary

The settings say how many units may work at a time, each strategy with a setting of its own. A pool of permits is made
of that number before the first unit starts. A setting of zero does no harm: there is one permit then. At the other end
nothing is made smaller, and a pool has a largest size. So one bound on one number decides about the whole run:

* `EngineSettings.limit` — the number that counts, by the strategy; `permits?_eq` — the permits that come of it;
* `Completes` — a run that has permits, keeps within them and comes to its summary; `completes` — so does every run
  that has permits, and `exists_completes_iff` says which runs these are;
* `summary_iff_limit` — this is the case up to the largest size of a pool, whatever the sink, the batch and the records
  are, and above it there is no summary at all.
-/

namespace Rulebook

/-- What the settings say about how many units may work at a time. -/
def EngineSettings.limit (s : EngineSettings) : Nat :=
  if s.strategy = .ruleParallel then s.maxWorkers else s.maxPendingActions

namespace Run

variable {settings : EngineSettings} {sink : Sink} {permits : Nat}

/-! ## Permits -/

/-- **The permits of a run**: as many as the settings say and at least one, where a pool can hold them. -/
theorem permits?_eq (settings : EngineSettings) :
    permits? settings = if settings.limit ≤ maxPermits then some (max 1 settings.limit) else none := by
  have one : 1 ≤ maxPermits := by decide
  have wanted (n : Nat) : (if max n 1 ≤ maxPermits then some (max n 1) else none) =
      if n ≤ maxPermits then some (max 1 n) else none := by
    rw [max_comm n 1]
    exact if_congr (by omega) rfl rfl
  obtain ⟨strategy, workers, pending, timeout, keys⟩ := settings
  cases strategy with
  | ruleParallel => exact wanted workers
  | recordSequential => exact wanted pending

theorem permits?_eq_none_iff : permits? settings = none ↔ maxPermits < settings.limit := by
  rw [permits?_eq, ite_eq_right_iff, ← Nat.not_le]
  exact ⟨fun h small => Option.some_ne_none _ (h small), fun large small => absurd small large⟩

/-! ## Runs that come to their summary -/

/-- **A run that comes to its summary** with a number of permits. -/
structure Completes (settings : EngineSettings) (sink : Sink) (batch : RuleBatch) (records : List Value)
    (permits : Nat) : Prop where
  /-- These are the permits that the run asks for. -/
  asked : permits? settings = some permits
  /-- There is one of them at least. -/
  positive : 1 ≤ permits
  /-- A pool can hold them. -/
  fits : permits ≤ maxPermits
  /-- The run keeps within them, in every state that it gets into. -/
  kept : ∀ s, Steps sink permits
    (State.initial settings.strategy settings.actionTimeout (Opening.of settings.identityKeys batch records)) s →
      s.working.length ≤ permits
  /-- It does not go on forever, and where it cannot go on nothing is left to do. -/
  ends : RunsEnd sink permits
  /-- The summary that is computed is one that the run may end with. -/
  summary : ∃ x log, run settings sink batch records = .ok (x, log) ∧ Reaches settings sink batch records x log

/-- A run that has permits comes to its summary. -/
theorem completes (sink : Sink) (batch : RuleBatch) (records : List Value) (asked : permits? settings = some permits)
    (fits : permits ≤ maxPermits) : Completes settings sink batch records permits where
  asked := asked
  positive := permits_pos asked
  fits := fits
  kept s run := by
    refine run.length_working ?_
    have nobody : (State.initial settings.strategy settings.actionTimeout
        (Opening.of settings.identityKeys batch records)).working = [] := by
      cases settings.strategy <;> rfl
    rw [nobody]
    exact Nat.zero_le permits
  ends := runsEnd (permits_pos asked)
  summary := by
    obtain ⟨x, log, ended⟩ := exists_run settings sink batch records asked
    exact ⟨x, log, ended, reaches_run ended⟩

/-- Up to the largest size of a pool, a run has permits. -/
theorem completes_of_limit (sink : Sink) (batch : RuleBatch) (records : List Value) (small : settings.limit ≤ maxPermits) :
    Completes settings sink batch records (max 1 settings.limit) := by
  have one : 1 ≤ maxPermits := by decide
  exact completes sink batch records (by rw [permits?_eq, if_pos small]) (max_le one small)

/-- Where a pool cannot hold the permits there is no end, and the run says why. -/
theorem aborts (sink : Sink) (batch : RuleBatch) (records : List Value) (refused : permits? settings = none) :
    run settings sink batch records = .error .tooManyPermits ∧ ∀ x log, ¬ Reaches settings sink batch records x log := by
  refine ⟨by rw [run, refused], ?_⟩
  rintro x log ⟨n, final, asked, -⟩
  rw [refused] at asked
  cases asked

/-- Which runs come to a summary, with whatever number of permits. -/
theorem exists_completes_iff {batch : RuleBatch} {records : List Value} :
    (∃ permits, Completes settings sink batch records permits) ↔ settings.limit ≤ maxPermits := by
  constructor
  · rintro ⟨permits, completes⟩
    refine Nat.not_lt.mp fun large => ?_
    cases (permits?_eq_none_iff.mpr large).symm.trans completes.asked
  · intro small
    exact ⟨_, completes_of_limit sink batch records small⟩

/-- **Which settings let a run come to its summary.** If the limit of the strategy is at most the largest size of a pool,
    then for every sink, batch and list of records the run has as many permits as the limit says and at least one, keeps
    within them, and comes to its summary. There is a summary only then; otherwise the run aborts. No other setting
    matters. -/
theorem summary_iff_limit (settings : EngineSettings) (sink : Sink) (batch : RuleBatch) (records : List Value) :
    (settings.limit ≤ maxPermits → Completes settings sink batch records (max 1 settings.limit)) ∧
    ((∃ x log, Reaches settings sink batch records x log) ↔ settings.limit ≤ maxPermits) ∧
    (run settings sink batch records = .error .tooManyPermits ↔ maxPermits < settings.limit) := by
  have small (h : settings.limit ≤ maxPermits) := completes_of_limit sink batch records h
  have large (h : maxPermits < settings.limit) := aborts sink batch records (permits?_eq_none_iff.mpr h)
  refine ⟨small, ⟨?_, ?_⟩, ⟨?_, fun h => (large h).1⟩⟩
  · rintro ⟨x, log, reached⟩
    exact Nat.not_lt.mp fun h => (large h).2 x log reached
  · intro h
    obtain ⟨x, log, -, reached⟩ := (small h).summary
    exact ⟨x, log, reached⟩
  · intro aborted
    refine Nat.not_le.mp fun h => ?_
    obtain ⟨x, log, ended, -⟩ := (small h).summary
    rw [ended] at aborted
    cases aborted

/-- A limit of zero under one strategy and the largest one under the other: one permit, and as many as a pool can
    hold. -/
theorem summary_iff_limit_ends :
    let least := { EngineSettings.standard with maxPendingActions := 0 }
    let most := { EngineSettings.standard with strategy := .ruleParallel, maxWorkers := maxPermits }
    (least.limit ≤ maxPermits ∧ Completes least .accepting ⟨[], []⟩ [] 1) ∧
    (most.limit ≤ maxPermits ∧ Completes most .accepting ⟨[], []⟩ [] maxPermits) := by
  intro least most
  have low : least.limit ≤ maxPermits := Nat.zero_le _
  have high : most.limit ≤ maxPermits := Nat.le_refl _
  exact ⟨⟨low, (summary_iff_limit least .accepting ⟨[], []⟩ []).1 low⟩,
    high, (summary_iff_limit most .accepting ⟨[], []⟩ []).1 high⟩

/-- **Settings that abort.** Under both strategies, settings that decode and have a limit of 2⁶¹: there is no summary,
    whatever the sink, the batch and the records are. -/
theorem summary_aborted :
    let limit : Value := .number (.int 2305843009213693952 (by decide))
    ∀ strategy : Strategy,
      let config : Value :=
        .object [("max_pending_actions", limit), ("max_workers", limit), ("strategy", .string strategy.name)]
      ∃ settings, EngineSettings.decode? Form.strict config = some settings ∧ settings.strategy = strategy ∧
        ∀ sink batch records, run settings sink batch records = .error .tooManyPermits ∧
          ∀ x log, ¬ Reaches settings sink batch records x log := by
  intro limit strategy config
  let most : Nat := 2305843009213693952
  let settings : EngineSettings := { EngineSettings.standard with strategy, maxWorkers := most, maxPendingActions := most }
  have decoded : EngineSettings.decode? Form.strict config = some settings := by
    cases strategy <;> rfl
  have large : maxPermits < settings.limit := by
    cases strategy <;> decide
  exact ⟨settings, decoded, rfl, fun sink batch records => aborts sink batch records (permits?_eq_none_iff.mpr large)⟩

end Run

end Rulebook
