import Rulebook.Document
import Rulebook.Registry
import Rulebook.Settings.Basic
import Rulebook.Summary

/-!
# `Rulebook.Run` — a batch of rules on a list of records

A run registers the rules of a batch, makes facts of the records, and evaluates every rule on every fact.
What cannot be used is reported and left out. The work is cut into units, by the strategy: one unit for each
rule with all facts, or one for each pair of a rule that matched and its fact. Units hold a permit while they
work, and there are only so many permits.

`Rulebook.Run.Schedule` says in which orders units may work; here they work one after the other.

## Contents
* `Opening`, `Opening.of` — what a run starts from
* `WorkUnit`, `Job`, `Delivery` — the units of a run and what they deliver
* `work` — all units, one after the other
* `permits?` — how many units may work at a time
* `run` — the whole run
-/

namespace Rulebook

namespace Run

/-! ## The start of a run -/

/-- What a run starts from: the rules, the facts, and the summary of what was left out. -/
structure Opening where
  registry : Registry
  facts : List Fact
  summary : Summary

/-- The report of an entry that is no rule. -/
def rejectionReport (r : Rejected) : ErrorReport := ⟨.rejected r.index, r.name, none⟩

/-- The report of a rule that is refused. -/
def refusalReport (name : String) (e : RuleError) : ErrorReport := ⟨.refused e, some name, none⟩

/-- The facts of records from position `i` on, and the records that are none. -/
def factsFrom (keys : List String) (i : Nat) : List Value → List Fact × List NotAnObject
  | [] => ([], [])
  | record :: rest =>
    let (facts, unusable) := factsFrom keys (i + 1) rest
    match Fact.ofRecord keys i record with
    | .ok fact => (fact :: facts, unusable)
    | .error e => (facts, e :: unusable)

/-- What a run on a batch and a list of records starts from. The fallback counts right away. -/
def Opening.of (keys : List String) (batch : RuleBatch) (records : List Value) : Opening :=
  let (registry, refused) := Registry.empty.registerAll batch.definitions
  let (facts, unusable) := factsFrom keys 0 records
  let reports :=
    batch.rejected.map rejectionReport ++ refused.map (fun r => refusalReport r.1 r.2) ++
    unusable.map fun e => ⟨.unusable e, none, none⟩
  let start : Summary :=
    { reports.foldl Summary.report Summary.empty with
      rulesRegistered := registry.rules.length
      recordsEvaluated := facts.length
      skippedRecords := unusable.length }
  ⟨registry, facts, (facts.filterMap fallback?).foldl Summary.record start⟩

/-! ## Units -/

/-- What a unit delivers: outcomes, or the report that it could not work at all. -/
abbrev Delivery := Except ErrorReport (List Outcome)

/-- The summary with what a unit delivers. -/
def absorb (s : Summary) : Delivery → Summary
  | .ok outcomes => outcomes.foldl Summary.record s
  | .error e => s.report e

/-- A piece of work that needs a permit: the rule that it is for, the place of its fact if it is for one
    only, and what is left to do. -/
structure WorkUnit where
  rule : String
  fact : Option Nat
  task : Task Delivery

/-- The outcomes of a rule on facts with its actions, one fact after the other. -/
def settleAll (timeout : Nat) (r : CompiledRule) : List Fact → Task (List Outcome)
  | [] => .done []
  | fact :: rest => (r.settle timeout fact).bind fun o => (settleAll timeout r rest).map (o :: ·)

/-- The unit of a rule: it compiles the rule for itself and settles it on all facts. -/
def ruleUnit (timeout : Nat) (facts : List Fact) (d : RuleDefinition) : WorkUnit where
  rule := d.name
  fact := none
  task := match d.compile with
    | .error e => .done (.error ⟨.worker e, some d.name, none⟩)
    | .ok r => (settleAll timeout r facts).map .ok

/-- The unit of a pair: the actions of the rule on the fact. -/
def pairUnit (timeout : Nat) (fact : Fact) (r : CompiledRule) : WorkUnit where
  rule := r.name
  fact := some fact.index
  task := (r.settle timeout fact).map fun o => .ok [o]

/-- What a visit of a pair leads to: an outcome that is known at once, or a unit. -/
inductive Job where
  | known (o : Outcome)
  | deferred (unit : WorkUnit)

/-- The job of a pair. Only a rule that matches and has actions needs a unit. -/
def pairJob (timeout : Nat) (fact : Fact) (r : CompiledRule) : Job :=
  if r.isDue fact then .deferred (pairUnit timeout fact r) else .known (r.evaluate fact)

/-- The units of all rules. -/
def ruleUnits (timeout : Nat) (o : Opening) : List WorkUnit :=
  o.registry.rules.map fun r => ruleUnit timeout o.facts r.definition

/-- The jobs of all pairs, fact by fact. -/
def pairJobs (timeout : Nat) (o : Opening) : List Job :=
  o.facts.flatMap fun fact => o.registry.rules.map (pairJob timeout fact)

/-- A unit done without a break: the summary and the log after it. -/
def WorkUnit.finish (sink : Sink) (u : WorkUnit) (state : Summary × Log) : Summary × Log :=
  let (delivery, log) := u.task.run sink state.2
  (absorb state.1 delivery, log)

/-- A job done without a break: the summary and the log after it. -/
def Job.finish (sink : Sink) (state : Summary × Log) : Job → Summary × Log
  | known o => (state.1.record o, state.2)
  | deferred unit => unit.finish sink state

/-- All work of a run, one unit after the other. -/
def work (strategy : Strategy) (timeout : Nat) (sink : Sink) (o : Opening) : Summary × Log :=
  match strategy with
  | .ruleParallel =>
    (ruleUnits timeout o).foldl (fun state u => u.finish sink state) (o.summary, Log.empty)
  | .recordSequential => (pairJobs timeout o).foldl (Job.finish sink) (o.summary, Log.empty)

/-! ## Permits -/

/-- The most permits that a pool can hold, 2⁶¹ - 1. -/
def maxPermits : Nat := 0x1fffffffffffffff

/-- How many units may work at a time: as many as the settings of the strategy say, but at least one.
    There is no run with more permits than a pool can hold. -/
def permits? (s : EngineSettings) : Option Nat :=
  let wanted := match s.strategy with
    | .ruleParallel => max s.maxWorkers 1
    | .recordSequential => max s.maxPendingActions 1
  if wanted ≤ maxPermits then some wanted else none

/-! ## Runs -/

/-- Why there is no summary. -/
inductive Abort where
  | tooManyPermits
  deriving DecidableEq

/-- The run of a batch on records: its summary, and the log of the sink after it. -/
def run (s : EngineSettings) (sink : Sink) (batch : RuleBatch) (records : List Value) :
    Except Abort (Summary × Log) :=
  match permits? s with
  | none => .error .tooManyPermits
  | some _ =>
    let (summary, log) := work s.strategy s.actionTimeout sink (Opening.of s.identityKeys batch records)
    .ok (summary.sorted, log)

end Run

end Rulebook
