import Mathlib.Data.List.Nodup
import Rulebook.Proofs.Run.Pairs

/-!
# `Rulebook.Proofs.Run.Queue` — where every pair stands

Record by record, a run visits its pairs in order; a pair that needs a unit waits for a permit, is in flight, is
finished, and is collected some time later. A state shows at which stage it has which pairs. Every step moves one pair
from a stage to a later one or leaves all of them where they are, so no place gets lost and none shows up twice; and
what is in flight holds a permit, of which there are only so many.

* `Stage`, `State.standing` — the stages of a pair, and the places of the pairs that a state has at each of them
* `State.Tidy` — units and deliveries belong to pairs that are due; `Step.tidy` keeps that
* `Step.count_standing` — a step leaves the number of times that a place stands anywhere
* `Step.length_working`, `Steps.length_working` — units in flight keep within the permits
* `State.Accounts` — every pair at one stage, and few of them in flight
* `queue_accounts` — **the queue invariant**: it holds in every state that a run can get into
-/

namespace Rulebook.Run

variable {timeout : Nat}

/-! ## Stages -/

/-- Where a pair stands: it is not yet visited, its unit waits for a permit, its unit is in flight, its unit is finished
    and nobody has collected the outcome, or the outcome is recorded in the summary. -/
inductive Stage where
  | unvisited
  | waiting
  | inFlight
  | finished
  | recorded
  deriving DecidableEq

/-- All stages, in the order in which a pair can come to them. -/
def Stage.all : List Stage := [.unvisited, .waiting, .inFlight, .finished, .recorded]

theorem Stage.mem_all (stage : Stage) : stage ∈ all := by
  cases stage <;> decide

/-- The place of the pair that a unit is for. A unit of a rule is for no single pair. -/
def WorkUnit.places (u : WorkUnit) : List (Nat × String) := (u.fact.map fun i => (i, u.rule)).toList

/-- The place of the pair that a job is for. -/
def Job.places : Job → List (Nat × String)
  | known o => [Summary.place o]
  | deferred u => u.places

/-- The places of the outcomes that a unit delivers. -/
def deliveredPlaces (d : Delivery) : List (Nat × String) := (d.toOption.getD []).map Summary.place

/-- The places of the outcomes of pairs in a summary. The fallbacks are none. -/
def recordedPlaces (s : Summary) : List (Nat × String) :=
  (s.outcomes.filter fun o => !o.fallback).map Summary.place

/-- **The places of the pairs that a state has at a stage.** -/
def State.standing (s : State) : Stage → List (Nat × String)
  | .unvisited => s.ahead.flatMap Job.places
  | .waiting => s.waiting.flatMap WorkUnit.places
  | .inFlight => s.working.flatMap WorkUnit.places
  | .finished => s.finished.flatMap deliveredPlaces
  | .recorded => recordedPlaces s.summary

/-- How often a place stands anywhere. -/
theorem State.count_standing (s : State) (x : Nat × String) :
    (Stage.all.flatMap s.standing).count x =
      (s.ahead.flatMap Job.places).count x + (s.waiting.flatMap WorkUnit.places).count x +
      (s.working.flatMap WorkUnit.places).count x + (s.finished.flatMap deliveredPlaces).count x +
      (recordedPlaces s.summary).count x := by
  simp only [Stage.all, List.flatMap_cons, List.flatMap_nil, List.append_nil, List.count_append, State.standing]
  omega

/-! ## Units and pairs -/

/-- A unit delivers the outcome of a pair, and that is all it delivers. -/
def DeliversFor (d : Delivery) (p : Fact × CompiledRule) : Prop := ∃ o, d = .ok [o] ∧ o.IsOf p.2 p.1

/-- A unit is for a pair: it has its place, the pair is due, and whatever the sink does the unit delivers its
    outcome. -/
structure WorkUnit.IsFor (u : WorkUnit) (p : Fact × CompiledRule) : Prop where
  places : u.places = [pairPlace p]
  due : p.2.isDue p.1 = true
  delivers : ∀ tr d, u.task.Traces tr d → DeliversFor d p

theorem isFor_pairUnit {fact : Fact} {r : CompiledRule} (due : r.isDue fact = true) :
    (pairUnit timeout fact r).IsFor (fact, r) where
  places := rfl
  due := due
  delivers tr d h := by
    obtain ⟨o, settles, rfl⟩ := Task.traces_map_iff.mp h
    exact ⟨o, rfl, CompiledRule.settle_isOf settles⟩

/-- A unit that goes on after a verdict is for the same pair. -/
theorem WorkUnit.IsFor.resume {u : WorkUnit} {p : Fact × CompiledRule} (h : u.IsFor p) {r : Emission}
    {resume : Verdict → Task Delivery} (stops : u.task = .emit r resume) (v : Verdict) :
    WorkUnit.IsFor { u with task := resume v } p where
  places := h.places
  due := h.due
  delivers tr d next := by
    refine h.delivers ((r, v) :: tr) d ?_
    rw [stops]
    exact .emit next

/-- A unit that is done delivers the outcome of its pair. -/
theorem WorkUnit.IsFor.delivered {u : WorkUnit} {p : Fact × CompiledRule} (h : u.IsFor p) {d : Delivery}
    (ends : u.task = .done d) : DeliversFor d p := by
  refine h.delivers [] d ?_
  rw [ends]
  exact .done d

theorem DeliversFor.places {d : Delivery} {p : Fact × CompiledRule} (h : DeliversFor d p) :
    deliveredPlaces d = [pairPlace p] := by
  obtain ⟨o, rfl, isOf⟩ := h
  exact congrArg ([·]) (place_of_isOf isOf)

/-- Recording the outcome of a pair records its place. -/
theorem recordedPlaces_record {o : Outcome} {p : Fact × CompiledRule} (h : o.IsOf p.2 p.1) (s : Summary) :
    recordedPlaces (s.record o) = recordedPlaces s ++ [pairPlace p] := by
  rw [recordedPlaces, Summary.record, List.filter_append, List.map_append,
    List.filter_cons_of_pos (by rw [h.fallback]; rfl), List.filter_nil, List.map_singleton, place_of_isOf h]
  rfl

theorem pairJob_places (fact : Fact) (r : CompiledRule) :
    (pairJob timeout fact r).places = [pairPlace (fact, r)] := by
  unfold pairJob
  split <;> rfl

/-- The outcome of a pair that is known at once is one of the pair. -/
theorem isOf_of_known {fact : Fact} {r : CompiledRule} {o : Outcome} (h : .known o = pairJob timeout fact r) :
    o.IsOf r fact := by
  unfold pairJob at h
  split at h
  · cases h
  · cases h
    exact ⟨rfl, rfl, rfl, rfl, rfl⟩

/-- Only a pair that is due has a unit. -/
theorem isFor_of_deferred {fact : Fact} {r : CompiledRule} {u : WorkUnit} (h : .deferred u = pairJob timeout fact r) :
    u.IsFor (fact, r) := by
  unfold pairJob at h
  split at h
  · rename_i due
    cases h
    exact isFor_pairUnit due
  · cases h

/-! ## Steps -/

/-- What a state has to do belongs to pairs of the run: its jobs are those of pairs, its units are for pairs, and its
    deliveries are outcomes of pairs. -/
structure State.Tidy (timeout : Nat) (o : Opening) (s : State) : Prop where
  jobs : ∀ j ∈ s.ahead, ∃ p ∈ pairs o, j = pairJob timeout p.1 p.2
  waiting : ∀ u ∈ s.waiting, ∃ p ∈ pairs o, u.IsFor p
  working : ∀ u ∈ s.working, ∃ p ∈ pairs o, u.IsFor p
  deliveries : ∀ d ∈ s.finished, ∃ p ∈ pairs o, DeliversFor d p

variable {sink : Sink} {permits : Nat} {o : Opening} {s t : State}

/-- **A step keeps a state tidy.** -/
theorem Step.tidy (h : Step sink permits s t) (tidy : s.Tidy timeout o) : t.Tidy timeout o := by
  obtain ⟨jobs, waiting, working, deliveries⟩ := tidy
  cases h with
  | @know o' rest nobodyWaits next =>
      rw [next] at jobs
      exact ⟨(List.forall_mem_cons.mp jobs).2, waiting, working, deliveries⟩
  | @defer u rest nobodyWaits next =>
      rw [next] at jobs
      obtain ⟨⟨p, hp, job⟩, others⟩ := List.forall_mem_cons.mp jobs
      exact ⟨others, List.forall_mem_singleton.mpr ⟨p, hp, isFor_of_deferred job⟩, working, deliveries⟩
  | @start u before after free waits =>
      rw [waits, List.forall_mem_append, List.forall_mem_cons] at waiting
      obtain ⟨left, first, right⟩ := waiting
      exact ⟨jobs, List.forall_mem_append.mpr ⟨left, right⟩,
        List.forall_mem_append.mpr ⟨working, List.forall_mem_singleton.mpr first⟩, deliveries⟩
  | @advance u before after r resume works stops =>
      rw [works, List.forall_mem_append, List.forall_mem_cons] at working
      obtain ⟨left, ⟨p, hp, isFor⟩, right⟩ := working
      refine ⟨jobs, waiting, List.forall_mem_append.mpr ⟨left, List.forall_mem_cons.mpr ⟨?_, right⟩⟩, deliveries⟩
      exact ⟨p, hp, isFor.resume stops _⟩
  | @finish u before after d works ends =>
      rw [works, List.forall_mem_append, List.forall_mem_cons] at working
      obtain ⟨left, ⟨p, hp, isFor⟩, right⟩ := working
      refine ⟨jobs, waiting, List.forall_mem_append.mpr ⟨left, right⟩,
        List.forall_mem_append.mpr ⟨deliveries, List.forall_mem_singleton.mpr ⟨p, hp, isFor.delivered ends⟩⟩⟩
  | @collect d before after delivered =>
      rw [delivered, List.forall_mem_append, List.forall_mem_cons] at deliveries
      obtain ⟨left, -, right⟩ := deliveries
      exact ⟨jobs, waiting, working, List.forall_mem_append.mpr ⟨left, right⟩⟩

/-- **A step loses no place and doubles none.** It moves a pair from one stage to another or leaves all of them. -/
theorem Step.count_standing (h : Step sink permits s t) (tidy : s.Tidy timeout o) (x : Nat × String) :
    (Stage.all.flatMap t.standing).count x = (Stage.all.flatMap s.standing).count x := by
  rw [State.count_standing, State.count_standing]
  cases h with
  | @know o' rest nobodyWaits next =>
      -- The pair was not yet visited, and its outcome is recorded.
      obtain ⟨p, hp, job⟩ := tidy.jobs (.known o') (next ▸ List.mem_cons_self)
      have place : (Job.known o').places = [pairPlace p] := job ▸ pairJob_places p.1 p.2
      simp only [next, place, recordedPlaces_record (isOf_of_known job), List.flatMap_cons, List.count_append]
      omega
  | @defer u rest nobodyWaits next =>
      simp only [next, nobodyWaits, Job.places, List.flatMap_cons, List.flatMap_nil, List.count_append, List.count_nil]
      omega
  | @start u before after free waits =>
      simp only [waits, List.flatMap_append, List.flatMap_cons, List.flatMap_nil, List.count_append, List.count_nil]
      omega
  | @advance u before after r resume works stops =>
      -- The unit stays in flight and is for the same pair.
      rw [works, List.flatMap_append, List.flatMap_append, List.flatMap_cons, List.flatMap_cons]
      rfl
  | @finish u before after d works ends =>
      -- The unit was for the pair whose outcome it delivers.
      obtain ⟨p, hp, isFor⟩ := tidy.working u (works ▸ List.mem_append_right before List.mem_cons_self)
      simp only [works, isFor.places, (isFor.delivered ends).places, List.flatMap_append, List.flatMap_cons,
        List.flatMap_nil, List.count_append, List.count_nil]
      omega
  | @collect d before after delivered =>
      obtain ⟨p, hp, delivers⟩ := tidy.deliveries d (delivered ▸ List.mem_append_right before List.mem_cons_self)
      have place : deliveredPlaces d = [pairPlace p] := delivers.places
      obtain ⟨o', rfl, isOf⟩ := delivers
      have recorded : recordedPlaces (absorb s.summary (.ok [o'])) = recordedPlaces s.summary ++ [pairPlace p] :=
        recordedPlaces_record isOf s.summary
      simp only [delivered, place, recorded, List.flatMap_append, List.flatMap_cons, List.count_append]
      omega

/-- **A step keeps within the permits**: a unit is in flight only where there was one left. -/
theorem Step.length_working (h : Step sink permits s t) (bounded : s.working.length ≤ permits) :
    t.working.length ≤ permits := by
  cases h with
  | @start u before after free waits =>
      rw [List.length_append, List.length_singleton]
      exact free
  | @advance u before after r resume works stops =>
      rw [works] at bounded
      simpa using bounded
  | @finish u before after d works ends =>
      rw [works] at bounded
      simp only [List.length_append, List.length_cons] at bounded ⊢
      omega
  | _ => exact bounded

/-- Units at work keep within the permits, in every state that a run gets into. -/
theorem Steps.length_working (h : Steps sink permits s t) (bounded : s.working.length ≤ permits) :
    t.working.length ≤ permits := by
  induction h with
  | refl => exact bounded
  | tail _ last ih => exact last.length_working ih

/-! ## Runs -/

/-- **Where the pairs of a run stand in a state**, with a limit for those in flight. -/
structure State.Accounts (o : Opening) (limit : Nat) (s : State) : Prop where
  /-- Every pair stands at exactly one stage. -/
  once : ∀ p ∈ pairs o, ∃! stage, pairPlace p ∈ s.standing stage
  /-- All stages together have the places of the pairs, each as often as there is such a pair, and no other. -/
  whole : (Stage.all.flatMap s.standing).Perm ((pairs o).map pairPlace)
  /-- Units in flight are few. -/
  bounded : s.working.length ≤ limit
  /-- Every unit in flight is for one pair, of a rule that matched and has actions. -/
  due : ∀ u ∈ s.working, ∃ p ∈ pairs o, u.places = [pairPlace p] ∧ p.2.applies p.1 = true ∧ p.2.actions ≠ []

/-- Record by record, the pairs of a run are all ahead at its start. -/
theorem standing_initial (timeout : Nat) (keys : List String) (batch : RuleBatch) (records : List Value) :
    let o := Opening.of keys batch records
    Stage.all.flatMap (State.initial .recordSequential timeout o).standing = (pairs o).map pairPlace := by
  intro o
  have ahead : (pairJobs timeout o).flatMap Job.places = (pairs o).map pairPlace := by
    rw [pairJobs, pairs, List.flatMap_assoc, List.map_flatMap]
    refine List.flatMap_congr fun fact _ => ?_
    rw [List.flatMap_map, List.map_map, List.map_eq_flatMap]
    exact List.flatMap_congr fun r _ => pairJob_places fact r
  -- The outcomes at the start are those of the fallback.
  have nothing : recordedPlaces o.summary = [] := by
    rw [recordedPlaces, opening_outcomes, List.map_eq_nil_iff, List.filter_eq_nil_iff]
    intro o' ho'
    obtain ⟨fact, -, -, rfl⟩ := (mem_fallbacks keys batch records).mp ho'
    exact Bool.false_ne_true
  show (pairJobs timeout o).flatMap Job.places ++ ([] ++ ([] ++ ([] ++ (recordedPlaces o.summary ++ [])))) = _
  rw [ahead, nothing]
  simp

theorem tidy_initial (timeout : Nat) (o : Opening) : (State.initial .recordSequential timeout o).Tidy timeout o where
  jobs j hj := by
    have hj : j ∈ pairJobs timeout o := hj
    rw [pairJobs, List.mem_flatMap] at hj
    obtain ⟨fact, hf, hj⟩ := hj
    obtain ⟨r, hr, rfl⟩ := List.mem_map.mp hj
    refine ⟨(fact, r), ?_, rfl⟩
    rw [pairs, List.mem_flatMap]
    exact ⟨fact, hf, List.mem_map_of_mem hr⟩
  waiting := List.forall_mem_nil _
  working := List.forall_mem_nil _
  deliveries := List.forall_mem_nil _

/-- **What holds along a run**: its states are tidy, they keep within the permits, and every place stands in them as
    often as at the start. -/
theorem Steps.queue (h : Steps sink permits s t) (tidy : s.Tidy timeout o) (bounded : s.working.length ≤ permits) :
    t.Tidy timeout o ∧ t.working.length ≤ permits ∧
      (Stage.all.flatMap t.standing).Perm (Stage.all.flatMap s.standing) := by
  induction h with
  | refl => exact ⟨tidy, bounded, .refl _⟩
  | tail run last ih =>
      obtain ⟨tidy', bounded', perm⟩ := ih
      refine ⟨last.tidy tidy', last.length_working bounded', .trans ?_ perm⟩
      exact List.perm_iff_count.mpr (last.count_standing tidy')

/-- Places that do not repeat over all stages are at one stage each. -/
theorem State.existsUnique_stage {s : State} (distinct : (Stage.all.flatMap s.standing).Nodup) {x : Nat × String}
    (mem : x ∈ Stage.all.flatMap s.standing) : ∃! stage, x ∈ s.standing stage := by
  obtain ⟨stage, -, there⟩ := List.mem_flatMap.mp mem
  refine ⟨stage, there, fun other here => ?_⟩
  by_contra different
  have : Std.Symm (Function.onFun List.Disjoint s.standing) := ⟨fun _ _ h => h.symm⟩
  have apart : List.Disjoint (s.standing other) (s.standing stage) :=
    (List.nodup_flatMap.mp distinct).2.forall other.mem_all stage.mem_all different
  exact apart here there

theorem permits_recordSequential {settings : EngineSettings}
    (h : permits? { settings with strategy := .recordSequential } = some permits) :
    permits = max 1 settings.maxPendingActions := by
  simp only [permits?, Option.ite_none_right_eq_some, Option.some.injEq] at h
  omega

/-- **The queue invariant.** In every state that a run gets into record by record, whatever the sink does and in
    whatever order units start, take turns, finish and are collected, each pair of a rule and a fact stands at exactly
    one stage; at most as many units are in flight as actions may be pending, and one at least; and units in flight are
    those of rules that matched and have actions. A state from which no step leads on is final, and in a final state
    every pair is recorded exactly once. -/
theorem queue_accounts (settings : EngineSettings) (batch : RuleBatch) (records : List Value)
    (allowed : permits? { settings with strategy := .recordSequential } = some permits) :
    let o := Opening.of settings.identityKeys batch records
    Steps sink permits (State.initial .recordSequential settings.actionTimeout o) s →
      s.Accounts o (max 1 settings.maxPendingActions) ∧ ((∀ t, ¬ Step sink permits s t) → s.isFinal) ∧
      (s.isFinal → ∀ p ∈ pairs o, (s.standing .recorded).count (pairPlace p) = 1) := by
  intro o run
  obtain ⟨tidy, bounded, perm⟩ := run.queue (tidy_initial settings.actionTimeout o) (Nat.zero_le permits)
  rw [standing_initial] at perm
  have distinct : (Stage.all.flatMap s.standing).Nodup :=
    perm.nodup_iff.mpr (map_pairPlace_nodup settings.identityKeys batch records)
  have everywhere : ∀ p ∈ pairs o, pairPlace p ∈ Stage.all.flatMap s.standing :=
    fun p hp => perm.mem_iff.mpr (List.mem_map_of_mem hp)
  refine ⟨⟨fun p hp => State.existsUnique_stage distinct (everywhere p hp), perm, ?_, ?_⟩,
    isFinal_of_stuck (permits_pos allowed), ?_⟩
  · rwa [permits_recordSequential allowed] at bounded
  · intro u hu
    obtain ⟨p, hp, isFor⟩ := tidy.working u hu
    obtain ⟨applies, acting⟩ := CompiledRule.isDue_iff.mp isFor.due
    exact ⟨p, hp, isFor.places, applies, acting⟩
  · rintro ⟨ahead, waiting, working, finished⟩ p hp
    -- Nothing is left to do, so all places are those that are recorded.
    have all : Stage.all.flatMap s.standing = s.standing .recorded := by
      simp only [Stage.all, List.flatMap_cons, List.flatMap_nil, State.standing, ahead, waiting, working, finished,
        List.nil_append, List.append_nil]
    have mem := everywhere p hp
    rw [all] at distinct mem
    exact List.count_eq_one_of_mem distinct mem

/-- Two pairs that are due, with one permit: a state in which one of them is in flight and the other one is ahead. -/
theorem queue_accounts_one_in_flight :
    let one : Value := .number (.int 1 (by decide))
    let batch : RuleBatch := ⟨[⟨"a", ⟨.all, [.test (.literal "x" "==" one)]⟩, [.alert "seen"]⟩], []⟩
    let records : List Value := [.object [("x", one)], .object [("x", one)]]
    let settings := { EngineSettings.standard with maxPendingActions := 0 }
    let o := Opening.of settings.identityKeys batch records
    permits? { settings with strategy := .recordSequential } = some 1 ∧
    ∃ s, Steps .accepting 1 (State.initial .recordSequential settings.actionTimeout o) s ∧
      s.ahead.length = 1 ∧ s.working.length = 1 ∧
      s.Accounts o (max 1 settings.maxPendingActions) ∧ ((∀ t, ¬ Step .accepting 1 s t) → s.isFinal) ∧
      (s.isFinal → ∀ p ∈ pairs o, (s.standing .recorded).count (pairPlace p) = 1) := by
  intro one batch records settings o
  have allowed : permits? { settings with strategy := .recordSequential } = some 1 := rfl
  have begun : ∃ s, Steps .accepting 1 (State.initial .recordSequential settings.actionTimeout o) s ∧
      s.ahead.length = 1 ∧ s.working.length = 1 := by
    subst one batch records settings o
    exact ⟨_, .tail (.tail (.refl _) (.defer rfl rfl)) (.start [] [] Nat.one_pos rfl), rfl, rfl⟩
  obtain ⟨s, run, ahead, working⟩ := begun
  exact ⟨allowed, s, run, ahead, working, queue_accounts settings batch records allowed run⟩

end Rulebook.Run
