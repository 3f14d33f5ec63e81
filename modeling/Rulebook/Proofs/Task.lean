import Rulebook.Outcome
import Rulebook.Sink

/-!
# `Rulebook.Proofs.Task` — how a task may end

A task stops at every record that it hands over, and its end depends on the verdicts. A trace is what the task went
through on its way: its records, each with the verdict on it. Traces say nothing about the sink; what is known of a
sink is a rule, which says of each record what verdicts the sink may give on it. A rule that allows one verdict for
each record leaves a task one end, whatever happens at the sink between two of its records.

## Contents
* `Trace`, `Trace.accepted` — what a task went through, and what the sink kept of it
* `Task.Traces` — the ends of a task with the ways to them, and their laws for `bind` and `map`
* `Sink.Obeys`, `Sink.Steady`, `Sink.NeverCrashes` — what is known of a sink
* `Task.traces_run` — a task that runs without a break
* `Task.resultUnder` — the one end under a verdict that depends on the record alone
-/

namespace Rulebook

/-! ## Traces -/

/-- What a task went through: the records that it handed over, each with the verdict on it, in their order. -/
abbrev Trace := List (Emission × Verdict)

namespace Trace

/-- The records of a trace that the sink accepted. -/
def accepted (tr : Trace) : List Emission := (tr.filter fun e => e.2 = .accept).map Prod.fst

@[simp] theorem accepted_nil : accepted [] = [] := rfl

@[simp] theorem accepted_cons_accept (r : Emission) (tr : Trace) :
    accepted ((r, .accept) :: tr) = r :: accepted tr := rfl

theorem accepted_cons_of_ne {v : Verdict} (h : v ≠ .accept) (r : Emission) (tr : Trace) :
    accepted ((r, v) :: tr) = accepted tr := by
  simp [accepted, h]

@[simp] theorem accepted_append (tr tr' : Trace) : accepted (tr ++ tr') = accepted tr ++ accepted tr' := by
  simp [accepted]

theorem accepted_flatMap {α : Type} (xs : List α) (f : α → Trace) :
    accepted (xs.flatMap f) = xs.flatMap fun x => accepted (f x) := by
  induction xs with
  | nil => rfl
  | cons x xs ih => rw [List.flatMap_cons, List.flatMap_cons, accepted_append, ih]

theorem accepted_perm {tr tr' : Trace} (h : tr.Perm tr') : (accepted tr).Perm (accepted tr') :=
  (h.filter _).map _

/-- The verdicts of a trace are all allowed. -/
def Obeys (allowed : Emission → Verdict → Prop) (tr : Trace) : Prop := ∀ e ∈ tr, allowed e.1 e.2

end Trace

/-- The log of a sink after a trace. -/
def Log.after (log : Log) (tr : Trace) : Log := ⟨log.offered ++ tr.map Prod.fst, log.accepted ++ tr.accepted⟩

@[simp] theorem Log.after_nil (log : Log) : log.after [] = log := by
  simp [Log.after]

theorem Log.after_append (log : Log) (tr tr' : Trace) : (log.after tr).after tr' = log.after (tr ++ tr') := by
  simp [Log.after]

/-- Offering one record makes a trace of one record. -/
theorem Log.offer_eq_after (sink : Sink) (r : Emission) (log : Log) :
    (log.offer sink r).2 = log.after [(r, (log.offer sink r).1)] := by
  by_cases accept : sink.verdict log.offered r = .accept
  · simp [Log.offer, Log.after, accept]
  · simp [Log.offer, Log.after, accept, Trace.accepted_cons_of_ne accept]

namespace Task

variable {α β : Type}

/-- A task may come to a result by a trace: the verdicts of the trace lead it there. -/
inductive Traces : Task α → Trace → α → Prop where
  | done (a : α) : Traces (.done a) [] a
  | emit {r : Emission} {resume : Verdict → Task α} {v : Verdict} {tr : Trace} {a : α}
      (next : Traces (resume v) tr a) : Traces (.emit r resume) ((r, v) :: tr) a

theorem traces_done_iff {a b : α} {tr : Trace} : Traces (.done a) tr b ↔ tr = [] ∧ b = a := by
  constructor
  · intro h; cases h; exact ⟨rfl, rfl⟩
  · rintro ⟨rfl, rfl⟩; exact .done b

theorem traces_emit_iff {r : Emission} {resume : Verdict → Task α} {tr : Trace} {a : α} :
    Traces (.emit r resume) tr a ↔ ∃ v tr', tr = (r, v) :: tr' ∧ Traces (resume v) tr' a := by
  constructor
  · intro h; cases h with | emit next => exact ⟨_, _, rfl, next⟩
  · rintro ⟨v, tr', rfl, next⟩; exact .emit next

/-- The traces of two tasks in a row are those of the first one followed by those of the second one. -/
theorem traces_bind_iff {f : α → Task β} {t : Task α} {tr : Trace} {b : β} :
    Traces (t.bind f) tr b ↔ ∃ a tr₁ tr₂, Traces t tr₁ a ∧ Traces (f a) tr₂ b ∧ tr = tr₁ ++ tr₂ := by
  induction t generalizing tr with
  | done a =>
      constructor
      · intro h
        exact ⟨a, [], tr, .done a, h, rfl⟩
      · rintro ⟨a', tr₁, tr₂, first, second, rfl⟩
        obtain ⟨rfl, rfl⟩ := traces_done_iff.mp first
        exact second
  | emit r resume ih =>
      constructor
      · intro h
        obtain ⟨v, tr', rfl, next⟩ := traces_emit_iff.mp h
        obtain ⟨a, tr₁, tr₂, first, second, rfl⟩ := (ih v).mp next
        exact ⟨a, (r, v) :: tr₁, tr₂, .emit first, second, rfl⟩
      · rintro ⟨a, tr₁, tr₂, first, second, rfl⟩
        obtain ⟨v, tr', rfl, next⟩ := traces_emit_iff.mp first
        exact .emit ((ih v).mpr ⟨a, tr', tr₂, next, second, rfl⟩)

theorem map_eq_bind (f : α → β) (t : Task α) : t.map f = t.bind fun a => .done (f a) := by
  induction t with
  | done a => rfl
  | emit r resume ih => simp only [map, bind, ih]

/-- Results that are mapped twice are mapped by both functions in a row. -/
theorem map_map {γ : Type} (f : α → β) (g : β → γ) (t : Task α) : (t.map f).map g = t.map fun a => g (f a) := by
  induction t with
  | done a => rfl
  | emit r resume ih => simp only [map, ih]

theorem traces_map_iff {f : α → β} {t : Task α} {tr : Trace} {b : β} :
    Traces (t.map f) tr b ↔ ∃ a, Traces t tr a ∧ b = f a := by
  rw [map_eq_bind, traces_bind_iff]
  constructor
  · rintro ⟨a, tr₁, tr₂, first, second, rfl⟩
    obtain ⟨rfl, rfl⟩ := traces_done_iff.mp second
    exact ⟨a, by rwa [List.append_nil], rfl⟩
  · rintro ⟨a, first, rfl⟩
    exact ⟨a, tr, [], first, .done _, (List.append_nil tr).symm⟩

end Task

/-! ## What is known of a sink -/

/-- A sink obeys a rule when all of its verdicts are allowed, whatever it was offered before. -/
def Sink.Obeys (sink : Sink) (allowed : Emission → Verdict → Prop) : Prop :=
  ∀ before r, allowed r (sink.verdict before r)

/-- **A steady sink** gives a record the same verdict at all times: what it was offered before does not
    matter. -/
def Sink.Steady (sink : Sink) : Prop :=
  ∀ before before' r, sink.verdict before r = sink.verdict before' r

/-- The rule that allows one verdict for each record. -/
def onlyVerdict (f : Emission → Verdict) (r : Emission) (v : Verdict) : Prop := v = f r

/-- A steady sink obeys the verdicts that it gives at the start. -/
theorem Sink.Steady.obeys {sink : Sink} (h : sink.Steady) : sink.Obeys (onlyVerdict (sink.verdict [])) :=
  fun before r => h before [] r

/-- Whether a verdict is a crash. -/
def Verdict.isCrash : Verdict → Bool
  | crash _ => true
  | _ => false

/-- The rule that allows every verdict but a crash. -/
def noCrash (_ : Emission) (v : Verdict) : Prop := v.isCrash = false

/-- Where no record gets a crash for its verdict, a trace meets none. -/
theorem Trace.Obeys.calm {f : Emission → Verdict} {tr : Trace} (h : tr.Obeys (onlyVerdict f))
    (calm : ∀ r, noCrash r (f r)) : tr.Obeys noCrash := by
  intro e he
  have verdict : e.2 = f e.1 := h e he
  rw [verdict]
  exact calm e.1

/-- **A sink that never crashes** accepts a record, refuses it or does not answer. -/
def Sink.NeverCrashes (sink : Sink) : Prop := sink.Obeys noCrash

/-- The rule that allows everything, which every sink obeys. -/
def anyVerdict (_ : Emission) (_ : Verdict) : Prop := True

theorem Sink.obeys_anyVerdict (sink : Sink) : sink.Obeys anyVerdict := fun _ _ => trivial

namespace Task

variable {α : Type}

/-- A task that runs without a break goes along a trace that the sink allows, and leaves the log after it. -/
theorem traces_run {sink : Sink} {allowed : Emission → Verdict → Prop} (obeys : sink.Obeys allowed) (t : Task α)
    (log : Log) :
    ∃ tr : Trace, t.Traces tr (t.run sink log).1 ∧ tr.Obeys allowed ∧ (t.run sink log).2 = log.after tr := by
  induction t generalizing log with
  | done a => exact ⟨[], .done a, nofun, (log.after_nil).symm⟩
  | emit r resume ih =>
      obtain ⟨tr, traces, tame, after⟩ := ih (log.offer sink r).1 (log.offer sink r).2
      refine ⟨(r, (log.offer sink r).1) :: tr, .emit traces, ?_, ?_⟩
      · exact List.forall_mem_cons.mpr ⟨obeys log.offered r, tame⟩
      · refine after.trans ?_
        rw [Log.offer_eq_after, Log.after_append]
        rfl

/-! ## One verdict for each record -/

/-- The result of a task when every record gets the verdict that `f` gives it. -/
def resultUnder (f : Emission → Verdict) : Task α → α
  | done a => a
  | emit r resume => (resume (f r)).resultUnder f

/-- Under one verdict for each record a task has one end. -/
theorem Traces.eq_resultUnder {f : Emission → Verdict} {t : Task α} {tr : Trace} {a : α} (h : t.Traces tr a)
    (obeys : tr.Obeys (onlyVerdict f)) : a = t.resultUnder f := by
  induction h with
  | done a => rfl
  | @emit r resume v tr a _ ih =>
      obtain ⟨verdict, rest⟩ := List.forall_mem_cons.mp obeys
      have verdict : v = f r := verdict
      subst verdict
      exact ih rest

/-- Under one verdict for each record a task goes one way. -/
theorem Traces.trace_unique {f : Emission → Verdict} {t : Task α} {tr tr' : Trace} {a a' : α} (h : t.Traces tr a)
    (h' : t.Traces tr' a') (obeys : tr.Obeys (onlyVerdict f)) (obeys' : tr'.Obeys (onlyVerdict f)) : tr = tr' := by
  induction h generalizing tr' with
  | done a => exact (traces_done_iff.mp h').1.symm
  | @emit r resume v tr a _ ih =>
      obtain ⟨v', tr', rfl, next⟩ := traces_emit_iff.mp h'
      obtain ⟨verdict, rest⟩ := List.forall_mem_cons.mp obeys
      obtain ⟨verdict', rest'⟩ := List.forall_mem_cons.mp obeys'
      have same : v = v' := verdict.trans verdict'.symm
      subst same
      rw [ih next rest rest']

/-- Mapping the results of a task maps the one that it has. -/
theorem resultUnder_map {β : Type} (f : Emission → Verdict) (g : α → β) (t : Task α) :
    (t.map g).resultUnder f = g (t.resultUnder f) := by
  induction t with
  | done a => rfl
  | emit r resume ih => exact ih (f r)

/-- A task followed by another one has the result of that one. -/
theorem resultUnder_bind {β : Type} (f : Emission → Verdict) (g : α → Task β) (t : Task α) :
    (t.bind g).resultUnder f = (g (t.resultUnder f)).resultUnder f := by
  induction t with
  | done a => rfl
  | emit r resume ih => exact ih (f r)

/-- The result under one verdict for each record is an end, by a way that goes along these verdicts. -/
theorem traces_resultUnder (f : Emission → Verdict) (t : Task α) :
    ∃ tr, t.Traces tr (t.resultUnder f) ∧ tr.Obeys (onlyVerdict f) := by
  induction t with
  | done a => exact ⟨[], .done a, nofun⟩
  | emit r resume ih =>
      obtain ⟨tr, next, obeys⟩ := ih (f r)
      exact ⟨(r, f r) :: tr, .emit next, List.forall_mem_cons.mpr ⟨rfl, obeys⟩⟩

/-- At a steady sink a task has this result, whatever the sink was offered before. -/
theorem run_eq_resultUnder {sink : Sink} (steady : sink.Steady) (t : Task α) (log : Log) :
    (t.run sink log).1 = t.resultUnder (sink.verdict []) := by
  obtain ⟨tr, traces, obeys, -⟩ := traces_run steady.obeys t log
  exact traces.eq_resultUnder obeys

end Task

end Rulebook
