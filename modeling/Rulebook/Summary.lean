import Rulebook.Outcome

/-!
# `Rulebook.Summary` — the summary of a run

A summary counts what happened in a run and keeps its outcomes and errors. A run that ends is not yet a run
that succeeds: one error is enough to make it fail.

## Contents
* `Summary`, `Summary.record`, `Summary.report` — a summary that grows
* `Summary.sorted` — the outcomes by fact and rule
* `Summary.isSuccess`, `Summary.errorCount`, `Summary.outcomesFor` — questions to a summary
-/

namespace Rulebook

/-- The summary of a run. -/
structure Summary where
  rulesRegistered : Nat
  recordsEvaluated : Nat
  totalPairs : Nat
  matchedPairs : Nat
  fallbackMatches : Nat
  actionsSucceeded : Nat
  actionsFailed : Nat
  skippedRecords : Nat
  errors : List ErrorReport
  outcomes : List Outcome

namespace Summary

/-- The summary of a run in which nothing has happened yet. -/
def empty : Summary := ⟨0, 0, 0, 0, 0, 0, 0, 0, [], []⟩

/-- The summary with one more outcome. The fallback is no pair of a rule and a fact. -/
def record (s : Summary) (o : Outcome) : Summary :=
  { s with
    fallbackMatches := s.fallbackMatches + if o.fallback then 1 else 0
    totalPairs := s.totalPairs + if o.fallback then 0 else 1
    matchedPairs := s.matchedPairs + if !o.fallback && o.matched then 1 else 0
    actionsSucceeded := s.actionsSucceeded + o.applied.length
    actionsFailed := s.actionsFailed + (o.errors.filter fun e => e.cause.action?.isSome).length
    errors := s.errors ++ o.errors
    outcomes := s.outcomes ++ [o] }

/-- The summary with one more error that belongs to no outcome. -/
def report (s : Summary) (e : ErrorReport) : Summary := { s with errors := s.errors ++ [e] }

/-- Whether outcome `a` comes before `b` or at the same place: by fact, then by rule. -/
def inOrder (a b : Outcome) : Bool :=
  a.factIndex < b.factIndex || (a.factIndex = b.factIndex && a.rule ≤ b.rule)

/-- The summary with its outcomes in order, whatever order they came in. -/
def sorted (s : Summary) : Summary := { s with outcomes := s.outcomes.mergeSort inOrder }

/-- A run succeeds when there is no error. -/
def isSuccess (s : Summary) : Bool := s.errors.isEmpty

/-- How many errors there are of a kind. -/
def errorCount (s : Summary) (kind : ErrorKind) : Nat := (s.errors.filter fun e => e.kind = kind).length

/-- The outcomes of a rule. -/
def outcomesFor (s : Summary) (rule : String) : List Outcome := s.outcomes.filter fun o => o.rule = rule

end Summary

end Rulebook
