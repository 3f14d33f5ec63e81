import Rulebook.Run

/-!
# `Rulebook.Run.Schedule` — the orders in which units may work

Units work side by side. Each of them stops at every record that it hands over, and any unit that has a
permit may go on next; the sink answers in the order in which it is asked. A unit keeps its permit until it
is done, and what it delivers is collected some time later, in any order.

Rule by rule, all units wait from the start. Record by record, the pairs are visited in order, and no pair is
visited while a unit waits for its permit.

## Contents
* `State`, `State.initial`, `State.isFinal` — a run between two steps, at its start and at its end
* `Step`, `Steps` — what may happen next, and what may happen in the end
* `Reaches` — the summaries and logs that a run may end with
* `reaches_run` — working off the units one after the other is one of these orders
-/

namespace Rulebook.Run

/-! ## States -/

/-- A run between two steps: the jobs of pairs not yet visited, the units that wait for a permit, those that
    hold one, what finished units delivered and nobody has collected, and the summary and the log so far. -/
structure State where
  ahead : List Job
  waiting : List WorkUnit
  working : List WorkUnit
  finished : List Delivery
  summary : Summary
  log : Log

/-- A run before its first step. -/
def State.initial (strategy : Strategy) (timeout : Nat) (o : Opening) : State :=
  match strategy with
  | .ruleParallel => ⟨[], ruleUnits timeout o, [], [], o.summary, Log.empty⟩
  | .recordSequential => ⟨pairJobs timeout o, [], [], [], o.summary, Log.empty⟩

/-- A run in which nothing is left to do. -/
def State.isFinal (s : State) : Prop :=
  s.ahead = [] ∧ s.waiting = [] ∧ s.working = [] ∧ s.finished = []

/-! ## Steps -/

/-- One step of a run with a sink and a number of permits. -/
inductive Step (sink : Sink) (permits : Nat) : State → State → Prop where
  /-- The next pair is visited and its outcome is known. -/
  | know {s : State} {o : Outcome} {rest : List Job} (nobodyWaits : s.waiting = [])
      (next : s.ahead = .known o :: rest) :
      Step sink permits s { s with ahead := rest, summary := s.summary.record o }
  /-- The next pair is visited and needs a unit. -/
  | defer {s : State} {u : WorkUnit} {rest : List Job} (nobodyWaits : s.waiting = [])
      (next : s.ahead = .deferred u :: rest) :
      Step sink permits s { s with ahead := rest, waiting := [u] }
  /-- A unit that waits gets a permit that is free. -/
  | start {s : State} {u : WorkUnit} (before after : List WorkUnit) (free : s.working.length < permits)
      (waits : s.waiting = before ++ u :: after) :
      Step sink permits s { s with waiting := before ++ after, working := s.working ++ [u] }
  /-- A unit at work hands over a record and gets the verdict. -/
  | advance {s : State} {u : WorkUnit} (before after : List WorkUnit) {r : Emission}
      {resume : Verdict → Task Delivery} (works : s.working = before ++ u :: after)
      (stops : u.task = .emit r resume) :
      Step sink permits s
        { s with
          working := before ++ { u with task := resume (s.log.offer sink r).1 } :: after
          log := (s.log.offer sink r).2 }
  /-- A unit is done and gives its permit back. -/
  | finish {s : State} {u : WorkUnit} (before after : List WorkUnit) {d : Delivery}
      (works : s.working = before ++ u :: after) (ends : u.task = .done d) :
      Step sink permits s { s with working := before ++ after, finished := s.finished ++ [d] }
  /-- What a unit delivered is collected. -/
  | collect {s : State} {d : Delivery} (before after : List Delivery)
      (delivered : s.finished = before ++ d :: after) :
      Step sink permits s { s with finished := before ++ after, summary := absorb s.summary d }

/-- Any number of steps. -/
inductive Steps (sink : Sink) (permits : Nat) : State → State → Prop where
  | refl (s : State) : Steps sink permits s s
  | tail {s t u : State} (run : Steps sink permits s t) (last : Step sink permits t u) :
      Steps sink permits s u

/-! ## Ends of runs -/

/-- A run may end with a summary and a log: some order of steps leads to them. -/
def Reaches (settings : EngineSettings) (sink : Sink) (batch : RuleBatch) (records : List Value)
    (summary : Summary) (log : Log) : Prop :=
  ∃ permits final,
    permits? settings = some permits ∧
    Steps sink permits
      (State.initial settings.strategy settings.actionTimeout
        (Opening.of settings.identityKeys batch records))
      final ∧
    final.isFinal ∧ summary = final.summary.sorted ∧ log = final.log

/-! ## One unit after the other -/

variable {sink : Sink} {permits : Nat}

theorem Steps.single {s t : State} (h : Step sink permits s t) : Steps sink permits s t :=
  .tail (.refl s) h

theorem Steps.trans {s t u : State} (h : Steps sink permits s t) (k : Steps sink permits t u) :
    Steps sink permits s u := by
  induction k with
  | refl => exact h
  | tail _ last ih => exact .tail ih last

/-- A unit alone at work runs to its end, is collected, and leaves what `Task.run` says. -/
theorem steps_task (rule : String) (fact : Option Nat) (ahead : List Job) (waiting : List WorkUnit)
    (summary : Summary) (task : Task Delivery) (log : Log) :
    Steps sink permits ⟨ahead, waiting, [⟨rule, fact, task⟩], [], summary, log⟩
      ⟨ahead, waiting, [], [], absorb summary (task.run sink log).1, (task.run sink log).2⟩ := by
  induction task generalizing log with
  | done d =>
    have done : Step sink permits ⟨ahead, waiting, [⟨rule, fact, .done d⟩], [], summary, log⟩
        ⟨ahead, waiting, [], [d], summary, log⟩ := .finish [] [] rfl rfl
    have collected : Step sink permits ⟨ahead, waiting, [], [d], summary, log⟩
        ⟨ahead, waiting, [], [], absorb summary d, log⟩ := .collect [] [] rfl
    exact (Steps.single done).trans (.single collected)
  | emit r resume ih =>
    have stop : Step sink permits ⟨ahead, waiting, [⟨rule, fact, .emit r resume⟩], [], summary, log⟩
        ⟨ahead, waiting, [⟨rule, fact, resume (log.offer sink r).1⟩], [], summary,
          (log.offer sink r).2⟩ :=
      Step.advance (s := ⟨ahead, waiting, [⟨rule, fact, .emit r resume⟩], [], summary, log⟩)
        (u := ⟨rule, fact, .emit r resume⟩) [] [] rfl rfl
    exact (Steps.single stop).trans (ih _ _)

/-- A unit at the head of those that wait is worked off. -/
theorem steps_unit (positive : 0 < permits) (ahead : List Job) (u : WorkUnit) (waiting : List WorkUnit)
    (state : Summary × Log) :
    Steps sink permits ⟨ahead, u :: waiting, [], [], state.1, state.2⟩
      ⟨ahead, waiting, [], [], (u.finish sink state).1, (u.finish sink state).2⟩ := by
  obtain ⟨rule, fact, task⟩ := u
  have admitted : Step sink permits ⟨ahead, ⟨rule, fact, task⟩ :: waiting, [], [], state.1, state.2⟩
      ⟨ahead, waiting, [⟨rule, fact, task⟩], [], state.1, state.2⟩ := .start [] waiting positive rfl
  exact (Steps.single admitted).trans (steps_task rule fact ahead waiting state.1 task state.2)

/-- Units that all wait are worked off one after the other. -/
theorem steps_units (positive : 0 < permits) (us : List WorkUnit) (state : Summary × Log) :
    Steps sink permits ⟨[], us, [], [], state.1, state.2⟩
      ⟨[], [], [], [], (us.foldl (fun state u => u.finish sink state) state).1,
        (us.foldl (fun state u => u.finish sink state) state).2⟩ := by
  induction us generalizing state with
  | nil => exact .refl _
  | cons u us ih => exact (steps_unit positive [] u us state).trans (ih _)

/-- Jobs are visited and worked off one after the other. -/
theorem steps_jobs (positive : 0 < permits) (jobs : List Job) (state : Summary × Log) :
    Steps sink permits ⟨jobs, [], [], [], state.1, state.2⟩
      ⟨[], [], [], [], (jobs.foldl (Job.finish sink) state).1,
        (jobs.foldl (Job.finish sink) state).2⟩ := by
  induction jobs generalizing state with
  | nil => exact .refl _
  | cons job jobs ih =>
    cases job with
    | known o =>
      have visited : Step sink permits ⟨.known o :: jobs, [], [], [], state.1, state.2⟩
          ⟨jobs, [], [], [], state.1.record o, state.2⟩ := .know rfl rfl
      exact (Steps.single visited).trans (ih (state.1.record o, state.2))
    | deferred u =>
      have visited : Step sink permits ⟨.deferred u :: jobs, [], [], [], state.1, state.2⟩
          ⟨jobs, [u], [], [], state.1, state.2⟩ := .defer rfl rfl
      exact ((Steps.single visited).trans (steps_unit positive jobs u [] state)).trans (ih _)

theorem permits_pos {settings : EngineSettings} {n : Nat} (h : permits? settings = some n) : 0 < n := by
  simp only [permits?, Option.ite_none_right_eq_some, Option.some.injEq] at h
  obtain ⟨_, rfl⟩ := h
  split <;> omega

/-- The summary and the log that `run` computes are among those that a run may end with. -/
theorem reaches_run {settings : EngineSettings} {batch : RuleBatch} {records : List Value}
    {summary : Summary} {log : Log} (h : run settings sink batch records = .ok (summary, log)) :
    Reaches settings sink batch records summary log := by
  unfold run at h
  split at h
  · cases h
  · rename_i n hn
    simp only [Except.ok.injEq, Prod.mk.injEq] at h
    obtain ⟨rfl, rfl⟩ := h
    unfold Reaches
    generalize Opening.of settings.identityKeys batch records = o
    refine ⟨n, ⟨[], [], [], [], (work settings.strategy settings.actionTimeout sink o).1,
      (work settings.strategy settings.actionTimeout sink o).2⟩, hn, ?_, ⟨rfl, rfl, rfl, rfl⟩, rfl, rfl⟩
    generalize settings.strategy = strategy
    cases strategy with
    | ruleParallel => exact steps_units (permits_pos hn) _ (o.summary, Log.empty)
    | recordSequential => exact steps_jobs (permits_pos hn) _ (o.summary, Log.empty)

end Rulebook.Run
