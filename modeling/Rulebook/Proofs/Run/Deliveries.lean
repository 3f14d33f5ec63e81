import Mathlib.Data.Multiset.MapFold
import Mathlib.Logic.Hydra
import Rulebook.Proofs.Task
import Rulebook.Run.Schedule

/-!
# `Rulebook.Proofs.Run.Deliveries` — what every order of units delivers

Whatever order its units take, a run has the same work to do. `State.work` collects it: the task of every job
that is still ahead, of every unit that waits or is at work, and of every delivery that nobody has collected,
each under the stage where it stands. A step does one of two things, and `Step.cases_work` says so once: one
delivery is absorbed by the summary, or one piece of work goes on, to a later stage or past its next record.

* `Interleaves`, `Ending` — traces that take turns, and a task with one of the ways to its end;
* `ComesBy`, `Step.comesBy`, `Steps.comesBy` — the summary of a run absorbs one end of every task that the run
  started with, and nothing else, in some order; what the run adds to the log is an interleaving of the traces to
  these ends;
* `RunsEnd`, `runsEnd` — runs end: steps cannot go on forever, and a run that cannot go on has nothing left to
  do; `exists_reaches` — so there is an end.
-/

namespace Rulebook.Run

variable {sink : Sink} {permits : Nat}

/-! ## The work that is left -/

/-- What a job has to do. An outcome that is known is delivered as it is. -/
def Job.task : Job → Task Delivery
  | known o => .done (.ok [o])
  | deferred u => u.task

/-- **The work that is left in a state**, each task with the number of stages that it has ahead. -/
def State.work (s : State) : Multiset (Nat × Task Delivery) :=
  ↑(s.ahead.map fun j => (3, j.task)) + ↑(s.waiting.map fun u => (2, u.task)) +
  ↑(s.working.map fun u => (1, u.task)) + ↑(s.finished.map fun d => (0, Task.done d))

/-- The tasks that are left in a state. -/
def State.tasks (s : State) : Multiset (Task Delivery) := s.work.map Prod.snd

/-- The tasks of a run before its first step. -/
theorem tasks_initial (strategy : Strategy) (timeout : Nat) (o : Opening) :
    (State.initial strategy timeout o).tasks = match strategy with
      | .ruleParallel => ↑((ruleUnits timeout o).map WorkUnit.task)
      | .recordSequential => ↑((pairJobs timeout o).map Job.task) := by
  cases strategy <;> simp [State.tasks, State.work, State.initial, Function.comp_def]

theorem State.isFinal_iff_work {s : State} : s.isFinal ↔ s.work = 0 := by
  simp [State.isFinal, State.work]

/-- One piece of work goes on and takes the log along: it enters a later stage, or it offers its next record and
    gets the verdict. -/
inductive GoesOn (sink : Sink) : Nat × Task Delivery → Log → Nat × Task Delivery → Log → Prop where
  | stage {m n : Nat} (t : Task Delivery) (log : Log) (later : n < m) : GoesOn sink (m, t) log (n, t) log
  | record (n : Nat) (r : Emission) (resume : Verdict → Task Delivery) (log : Log) :
      GoesOn sink (n, .emit r resume) log (n, resume (log.offer sink r).1) (log.offer sink r).2

/-- A list of work as a multiset, with one item of it at the head. -/
theorem coe_map_middle {α β : Type} (f : α → β) (before after : List α) (x : α) :
    (↑((before ++ x :: after).map f) : Multiset β) = f x ::ₘ ↑((before ++ after).map f) := by
  rw [Multiset.cons_coe, Multiset.coe_eq_coe]
  simp

/-- **What a step does.** A delivery is absorbed by the summary, or one piece of work goes on. -/
theorem Step.cases_work {s t : State} (h : Step sink permits s t) :
    (∃ n d, s.work = (n, .done d) ::ₘ t.work ∧ t.summary = absorb s.summary d ∧ t.log = s.log) ∨
    (∃ x y rest, GoesOn sink x s.log y t.log ∧ s.work = x ::ₘ rest ∧ t.work = y ::ₘ rest ∧
      t.summary = s.summary) := by
  cases h with
  | @know o rest nobodyWaits next =>
      refine .inl ⟨3, .ok [o], ?_, rfl, rfl⟩
      simp [State.work, next, Job.task]
  | @defer u rest nobodyWaits next =>
      refine .inr ⟨(3, u.task), (2, u.task), { s with ahead := rest }.work, .stage u.task s.log (by omega), ?_, ?_,
        rfl⟩
      · simp [State.work, next, Job.task]
      · simp only [State.work, nobodyWaits, List.map_cons, ← Multiset.cons_coe, Multiset.cons_add,
          Multiset.add_cons]
  | @start u before after free waits =>
      refine .inr ⟨(2, u.task), (1, u.task), { s with waiting := before ++ after }.work,
        .stage u.task s.log (by omega), ?_, ?_, rfl⟩
      · simp only [State.work, waits, coe_map_middle, Multiset.cons_add, Multiset.add_cons]
      · simp only [State.work, coe_map_middle _ s.working [], List.append_nil, Multiset.cons_add,
          Multiset.add_cons]
  | @advance u before after r resume works stops =>
      refine .inr ⟨(1, u.task), (1, resume (s.log.offer sink r).1), { s with working := before ++ after }.work,
        ?_, ?_, ?_, rfl⟩
      · rw [stops]
        exact .record 1 r resume s.log
      · simp only [State.work, works, coe_map_middle, Multiset.cons_add, Multiset.add_cons]
      · simp only [State.work, coe_map_middle, Multiset.cons_add, Multiset.add_cons]
  | @finish u before after d works ends =>
      refine .inr ⟨(1, .done d), (0, .done d), { s with working := before ++ after }.work,
        .stage (.done d) s.log (by omega), ?_, ?_, rfl⟩
      · simp only [State.work, works, coe_map_middle, ends, Multiset.cons_add, Multiset.add_cons]
      · simp only [State.work, coe_map_middle _ s.finished [], List.append_nil, Multiset.add_cons]
  | @collect d before after delivered =>
      refine .inl ⟨0, d, ?_, rfl, rfl⟩
      simp only [State.work, delivered, coe_map_middle, Multiset.add_cons]

/-! ## Interleavings -/

/-- One list is an interleaving of others: each of its items in turn is the first one left of one of them. -/
inductive Interleaves {α : Type} : List (List α) → List α → Prop where
  | ended {ls : List (List α)} (h : ∀ l ∈ ls, l = []) : Interleaves ls []
  | step {x : α} {rest : List α} {out : List α} (before after : List (List α))
      (h : Interleaves (before ++ rest :: after) out) : Interleaves (before ++ (x :: rest) :: after) (x :: out)

namespace Interleaves

variable {α : Type} {ls : List (List α)} {out : List α}

theorem nil_cons (h : Interleaves ls out) : Interleaves ([] :: ls) out := by
  induction h with
  | ended none => exact .ended (List.forall_mem_cons.mpr ⟨rfl, none⟩)
  | step before after _ ih => exact .step ([] :: before) after ih

/-- An interleaving has the items of its lists and no other. -/
theorem perm (h : Interleaves ls out) : out.Perm ls.flatten := by
  induction h with
  | ended none => rw [List.flatten_eq_nil_iff.mpr none]
  | @step x rest out before after _ ih =>
      rw [List.flatten_append, List.flatten_cons] at ih ⊢
      exact (ih.cons x).trans (List.perm_middle.symm)

/-- In an interleaving each of the lists keeps its order. -/
theorem sublist (h : Interleaves ls out) : ∀ l ∈ ls, l.Sublist out := by
  induction h with
  | ended none =>
      intro l hl
      rw [none l hl]
  | @step x rest out before after _ ih =>
      intro l hl
      rcases List.mem_append.mp hl with first | hl
      · exact (ih l (List.mem_append_left _ first)).cons x
      · rcases List.mem_cons.mp hl with rfl | last
        · exact (ih rest (List.mem_append_right before List.mem_cons_self)).cons_cons x
        · exact (ih l (List.mem_append_right before (List.mem_cons_of_mem rest last))).cons x

/-- The items of some kind that all come from one of the lists stand in an interleaving as they stand there. -/
theorem filter_eq (h : Interleaves ls out) {l part : List α} {q : α → Bool} (mem : l ∈ ls) (inside : part.Sublist l)
    (all : (ls.flatten.filter q).Perm part) : out.filter q = part := by
  have kind : part.filter q = part :=
    List.filter_eq_self.mpr fun a ha => (List.mem_filter.mp (all.mem_iff.mpr ha)).2
  have order : part.Sublist (out.filter q) := by
    rw [← kind]
    exact (inside.trans (h.sublist l mem)).filter q
  exact (order.eq_of_length ((h.perm.filter q).trans all).length_eq.symm).symm

/-- The order in which the lists are given does not matter. -/
theorem perm_left (h : Interleaves ls out) {ls' : List (List α)} (perm : ls.Perm ls') : Interleaves ls' out := by
  induction h generalizing ls' with
  | ended none => exact .ended fun l hl => none l (perm.mem_iff.mpr hl)
  | @step x rest out before after _ ih =>
      have mem : (x :: rest) ∈ ls' := perm.mem_iff.mp (List.mem_append_right before List.mem_cons_self)
      obtain ⟨before', after', rfl⟩ := List.append_of_mem mem
      have others : (before ++ after).Perm (before' ++ after') :=
        ((List.perm_middle.symm.trans perm).trans List.perm_middle).cons_inv
      have next : (before ++ rest :: after).Perm (before' ++ rest :: after') :=
        (List.perm_middle.trans (others.cons rest)).trans List.perm_middle.symm
      exact .step before' after' (ih next)

theorem map {β : Type} (f : α → β) (h : Interleaves ls out) : Interleaves (ls.map (List.map f)) (out.map f) := by
  induction h with
  | ended none =>
      refine .ended fun l hl => ?_
      obtain ⟨l, mem, rfl⟩ := List.mem_map.mp hl
      rw [none l mem, List.map_nil]
  | step before after _ ih =>
      rw [List.map_append, List.map_cons] at ih ⊢
      exact ih.step _ _

/-- An interleaving of images is the image of an interleaving. -/
theorem of_map {β : Type} {f : β → α} {ls : List (List β)} (h : Interleaves (ls.map (List.map f)) out) :
    ∃ out', Interleaves ls out' ∧ out'.map f = out := by
  generalize image : ls.map (List.map f) = ls' at h
  induction h generalizing ls with
  | ended none =>
      refine ⟨[], .ended fun l hl => ?_, rfl⟩
      exact List.map_eq_nil_iff.mp (none _ (image ▸ List.mem_map_of_mem hl))
  | step before after _ ih =>
      obtain ⟨before, others, rfl, rfl, last⟩ := List.map_eq_append_iff.mp image
      obtain ⟨l, after, rfl, first, rfl⟩ := List.map_eq_cons_iff.mp last
      obtain ⟨y, rest, rfl, rfl, rfl⟩ := List.map_eq_cons_iff.mp first
      have left : (before ++ rest :: after).map (List.map f) =
          before.map (List.map f) ++ rest.map f :: after.map (List.map f) := List.map_append
      obtain ⟨out', next, rfl⟩ := ih left
      exact ⟨y :: out', next.step before after, rfl⟩

end Interleaves

/-! ## What a run delivers -/

/-- A task with a way that leads it to an end. -/
structure Ending (α : Type) where
  task : Task α
  trace : Trace
  result : α
  traces : task.Traces trace result

/-- What holds at the end of a run holds at its start, when every step carries it back. -/
theorem Steps.head_induction {motive : State → Prop} {s t : State} (h : Steps sink permits s t)
    (back : ∀ s u, Step sink permits s u → motive u → motive s) (last : motive t) : motive s := by
  induction h with
  | refl => exact last
  | tail _ step ih => exact ih (back _ _ step last)

/-- A run from a state comes to a summary and a log by endings of the tasks that are left in the state: its summary
    absorbs their results one after the other, and what it adds to the log is an interleaving of their traces, with
    verdicts that are all allowed. -/
structure ComesBy (allowed : Emission → Verdict → Prop) (s : State) (summary : Summary) (log : Log)
    (es : List (Ending Delivery)) (history : Trace) : Prop where
  tasks : (↑(es.map Ending.task) : Multiset (Task Delivery)) = s.tasks
  summary : summary = (es.map Ending.result).foldl absorb s.summary
  interleaves : Interleaves (es.map Ending.trace) history
  log : log = s.log.after history
  obeys : history.Obeys allowed

namespace ComesBy

variable {allowed : Emission → Verdict → Prop} {s u : State} {summary : Summary} {log : Log}
  {es : List (Ending Delivery)} {history : Trace}

/-- One of the tasks that are left in a state has its ending among those of all of them. -/
theorem split (h : ComesBy allowed s summary log es history) {t : Task Delivery} {rest : Multiset (Task Delivery)}
    (tasks : s.tasks = t ::ₘ rest) :
    ∃ before e after, es = before ++ e :: after ∧ e.task = t ∧
      (↑((before ++ after).map Ending.task) : Multiset (Task Delivery)) = rest := by
  have all := h.tasks.trans tasks
  have mem : t ∈ (↑(es.map Ending.task) : Multiset (Task Delivery)) := all ▸ Multiset.mem_cons_self t rest
  obtain ⟨e, he, rfl⟩ := List.mem_map.mp (Multiset.mem_coe.mp mem)
  obtain ⟨before, after, rfl⟩ := List.append_of_mem he
  rw [coe_map_middle] at all
  exact ⟨before, e, after, rfl, rfl, (Multiset.cons_inj_right e.task).mp all⟩

/-- What is delivered first is the ending of a task that was done. -/
theorem delivered (h : ComesBy allowed u summary log es history) {n : Nat} {d : Delivery}
    (work : s.work = (n, .done d) ::ₘ u.work) (absorbed : u.summary = absorb s.summary d) (same : u.log = s.log) :
    ComesBy allowed s summary log (⟨.done d, [], d, .done d⟩ :: es) history where
  tasks := by
    rw [State.tasks, work, Multiset.map_cons, List.map_cons, ← Multiset.cons_coe, h.tasks]
    rfl
  summary := by rw [h.summary, absorbed, List.map_cons, List.foldl_cons]
  interleaves := h.interleaves.nil_cons
  log := by rw [h.log, same]
  obeys := h.obeys

/-- A task that offers a record and goes on has the ending of what it goes on with, with one more record before it. -/
theorem recorded (obeys : sink.Obeys allowed) (h : ComesBy allowed u summary log es history) {r : Emission}
    {resume : Verdict → Task Delivery} {rest : Multiset (Task Delivery)}
    (before : s.tasks = .emit r resume ::ₘ rest) (after : u.tasks = resume (s.log.offer sink r).1 ::ₘ rest)
    (offered : u.log = (s.log.offer sink r).2) (same : u.summary = s.summary) :
    ∃ es history, ComesBy allowed s summary log es history := by
  obtain ⟨first, e, last, rfl, task, others⟩ := h.split after
  have traces : (resume (s.log.offer sink r).1).Traces e.trace e.result := task ▸ e.traces
  let e' : Ending Delivery := ⟨.emit r resume, (r, (s.log.offer sink r).1) :: e.trace, e.result, .emit traces⟩
  refine ⟨first ++ e' :: last, (r, (s.log.offer sink r).1) :: history, ?_, ?_, ?_, ?_, ?_⟩
  · rw [coe_map_middle, others, before]
  · rw [h.summary, same, List.map_append, List.map_append, List.map_cons, List.map_cons]
  · have interleaves := h.interleaves
    rw [List.map_append, List.map_cons] at interleaves ⊢
    exact interleaves.step _ _
  · rw [h.log, offered, Log.offer_eq_after, Log.after_append]
    rfl
  · exact List.forall_mem_cons.mpr ⟨obeys s.log.offered r, h.obeys⟩

end ComesBy

/-- **What one step delivers.** A run that comes to its end by endings from the state after a step comes to it by endings
    from the state before. -/
theorem Step.comesBy {allowed : Emission → Verdict → Prop} (obeys : sink.Obeys allowed) {s u : State}
    {summary : Summary} {log : Log} (h : Step sink permits s u)
    (after : ∃ es history, ComesBy allowed u summary log es history) :
    ∃ es history, ComesBy allowed s summary log es history := by
  obtain ⟨es, history, comes⟩ := after
  rcases h.cases_work with ⟨n, d, work, absorbed, same⟩ | ⟨x, y, rest, goesOn, work, work', same⟩
  · exact ⟨_, history, comes.delivered work absorbed same⟩
  · have before : s.tasks = x.2 ::ₘ rest.map Prod.snd := by rw [State.tasks, work, Multiset.map_cons]
    have after : u.tasks = y.2 ::ₘ rest.map Prod.snd := by rw [State.tasks, work', Multiset.map_cons]
    generalize now : s.log = log₁ at goesOn
    generalize later : u.log = log₂ at goesOn
    cases goesOn with
    | stage t log _ =>
        refine ⟨es, history, comes.tasks.trans (after.trans before.symm), ?_, comes.interleaves, ?_, comes.obeys⟩
        · rw [comes.summary, same]
        · rw [comes.log, later, now]
    | record n r resume log =>
        subst now
        exact comes.recorded obeys before after later same

/-- **What every run delivers.** With a sink that obeys a rule, a run that has come to its end has come there by
    endings of the tasks of its start, in whatever order its units worked. -/
theorem Steps.comesBy {allowed : Emission → Verdict → Prop} (obeys : sink.Obeys allowed) {s t : State}
    (h : Steps sink permits s t) (final : t.isFinal) :
    ∃ es history, ComesBy allowed s t.summary t.log es history := by
  refine h.head_induction (motive := fun s => ∃ es history, ComesBy allowed s t.summary t.log es history) ?_ ?_
  · intro s u step after
    exact step.comesBy obeys after
  · refine ⟨[], [], ?_, rfl, .ended nofun, (Log.after_nil _).symm, nofun⟩
    rw [State.tasks, State.isFinal_iff_work.mp final]
    rfl

/-! ## Runs end -/

/-- A task that waits for a verdict is above what it goes on with. -/
def ResumesWith (t' t : Task Delivery) : Prop := ∃ r resume v, t = .emit r resume ∧ t' = resume v

theorem resumesWith_wellFounded : WellFounded ResumesWith := by
  refine ⟨fun t => ?_⟩
  induction t with
  | done d =>
      refine ⟨_, fun t' h => ?_⟩
      obtain ⟨r, resume, v, h, -⟩ := h
      cases h
  | emit r resume ih =>
      refine ⟨_, fun t' h => ?_⟩
      obtain ⟨r', resume', v, h, rfl⟩ := h
      cases h
      exact ih v

/-- **Steps cannot go on forever.** A step takes a piece of work away, or puts one in its place that has fewer
    stages ahead or that has come past a record. -/
theorem step_wellFounded : WellFounded fun t s : State => Step sink permits s t := by
  let below := Prod.Lex (· < · : Nat → Nat → Prop) ResumesWith
  have lex : WellFounded below := WellFounded.prod_lex Nat.lt_wfRel.wf resumesWith_wellFounded
  refine Subrelation.wf (r := InvImage (Relation.CutExpand below) State.work) (fun {t s} h => ?_)
    (InvImage.wf _ lex.cutExpand)
  rcases h.cases_work with ⟨n, d, work, -⟩ | ⟨x, y, rest, goesOn, before, after, -⟩
  · -- A delivery puts nothing in the place of the work that it takes away.
    refine ⟨0, (n, .done d), by simp, ?_⟩
    rw [work, add_zero, ← Multiset.singleton_add, add_comm]
  · have lower : below y x := by
      generalize s.log = log, t.log = log' at goesOn
      cases goesOn with
      | stage t log later => exact .left _ _ later
      | record n r resume log => exact .right n ⟨r, resume, _, rfl, rfl⟩
    simpa only [InvImage, before, after, ← Multiset.singleton_add, add_comm _ rest]
      using Relation.cutExpand_add_single rest lower

/-- **A run that cannot go on has nothing left to do.** With a permit at least, there is a step wherever work
    is left. -/
theorem isFinal_of_stuck (positive : 0 < permits) {s : State} (stuck : ∀ t, ¬ Step sink permits s t) :
    s.isFinal := by
  -- From the end to the start: work can wait only where later stages are busy, and they are not.
  have finished : s.finished = [] := by
    cases h : s.finished with
    | nil => rfl
    | cons d rest => exact absurd (.collect [] rest h) (stuck _)
  have working : s.working = [] := by
    cases h : s.working with
    | nil => rfl
    | cons u rest =>
        cases ht : u.task with
        | done d => exact absurd (.finish [] rest h ht) (stuck _)
        | emit r resume => exact absurd (.advance [] rest h ht) (stuck _)
  have waiting : s.waiting = [] := by
    cases h : s.waiting with
    | nil => rfl
    | cons u rest => exact absurd (.start [] rest (by rw [working]; exact positive) h) (stuck _)
  have ahead : s.ahead = [] := by
    cases h : s.ahead with
    | nil => rfl
    | cons job rest =>
        cases job with
        | known o => exact absurd (.know waiting h) (stuck _)
        | deferred u => exact absurd (.defer waiting h) (stuck _)
  exact ⟨ahead, waiting, working, finished⟩

/-- **Runs end** with a summary. -/
structure RunsEnd (sink : Sink) (permits : Nat) : Prop where
  /-- Steps cannot go on forever. -/
  finite : WellFounded fun t s : State => Step sink permits s t
  /-- Where they cannot go on, nothing is left to do. -/
  complete : ∀ s : State, (∀ t, ¬ Step sink permits s t) → s.isFinal

theorem runsEnd (positive : 0 < permits) : RunsEnd sink permits :=
  ⟨step_wellFounded, fun _ stuck => isFinal_of_stuck positive stuck⟩

/-- Where there are permits, there is a summary. -/
theorem exists_run (settings : EngineSettings) (sink : Sink) (batch : RuleBatch) (records : List Value) {n : Nat}
    (h : permits? settings = some n) : ∃ x log, run settings sink batch records = .ok (x, log) := by
  rw [run, h]
  exact ⟨_, _, rfl⟩

/-- Where there are permits, a run has an end. -/
theorem exists_reaches (settings : EngineSettings) (sink : Sink) (batch : RuleBatch) (records : List Value) {n : Nat}
    (h : permits? settings = some n) : ∃ x log, Reaches settings sink batch records x log := by
  obtain ⟨x, log, ended⟩ := exists_run settings sink batch records h
  exact ⟨x, log, reaches_run ended⟩

end Rulebook.Run
