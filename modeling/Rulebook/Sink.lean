import Rulebook.Rule.Definition

/-!
# `Rulebook.Sink` — where actions hand over what they produce

Every action produces one record and hands it to a sink. The sink accepts it, refuses it, never answers, or
fails altogether. Its verdict may depend on everything that it was offered before.

## Contents
* `Emission` — the record of an action
* `Verdict`, `Sink` — what a sink does with a record
* `Log`, `Log.offer` — what a sink was offered and what it keeps
* `Task`, `Task.run` — a computation that hands over records on its way
-/

namespace Rulebook

/-! ## Sinks -/

/-- The record of an action: its kind, its rule, the identity of its fact and what it hands over. -/
structure Emission where
  kind : ActionKind
  rule : String
  factId : Option String
  payload : Value

/-- What a sink does with a record. -/
inductive Verdict where
  | accept
  | refuse (reason : String)
  | hang
  | crash (reason : Option String)
  deriving DecidableEq

/-- A sink: its verdict on a record after the records that it was offered before, in their order. -/
structure Sink where
  verdict : List Emission → Emission → Verdict

/-- The sink that accepts everything. -/
def Sink.accepting : Sink := ⟨fun _ _ => .accept⟩

/-- The records that a sink was offered, and those of them that it accepted, in their order. -/
structure Log where
  offered : List Emission
  accepted : List Emission

/-- The log of a sink that was offered nothing. -/
def Log.empty : Log := ⟨[], []⟩

/-- A record offered to a sink: its verdict, and the log after it. -/
def Log.offer (sink : Sink) (r : Emission) (log : Log) : Verdict × Log :=
  let v := sink.verdict log.offered r
  (v, ⟨log.offered ++ [r], if v = .accept then log.accepted ++ [r] else log.accepted⟩)

/-! ## Tasks -/

/-- A computation that stops at every record it hands over and goes on with the verdict. Between two stops
    it changes nothing that others can see, so several tasks can take turns at a sink. -/
inductive Task (α : Type) where
  | done (result : α)
  | emit (record : Emission) (resume : Verdict → Task α)

namespace Task

/-- A task followed by another one that depends on its result. -/
def bind {α β : Type} (f : α → Task β) : Task α → Task β
  | done a => f a
  | emit r resume => emit r fun v => (resume v).bind f

/-- The results of a task, mapped. -/
def map {α β : Type} (f : α → β) : Task α → Task β
  | done a => done (f a)
  | emit r resume => emit r fun v => (resume v).map f

/-- A task run to its end without a break: its result, and the log after it. -/
def run {α : Type} (sink : Sink) : Task α → Log → α × Log
  | done a, log => (a, log)
  | emit r resume, log =>
    let (v, log) := log.offer sink r
    (resume v).run sink log

end Task

end Rulebook
