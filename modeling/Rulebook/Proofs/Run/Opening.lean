import Mathlib.Data.List.ProdSigma
import Rulebook.Proofs.Outcome
import Rulebook.Proofs.Registry
import Rulebook.Proofs.Run.Facts
import Rulebook.Proofs.Summary

/-!
# `Rulebook.Proofs.Run.Opening` — what a run starts from

The facts of a run keep the places of their records, so no two of them share one; what a run reports before it
evaluates anything is a fixed list of errors in the order of the input. Together with the distinct names of the
rules this gives every pair of a rule and a fact a place of its own, apart from those of the fallback.

* `facts_index_nodup` — facts have distinct places
* `startErrors`, `startErrors_nil_iff` — the errors that a run starts with, and when there are none
* `fallbacks` — the outcomes of the fallback
* `opening_summary`, `recorded_summary` — the summary at the start of a run and after any number of outcomes
* `pairs` — the pairs that a run evaluates
* `pair_places_nodup` — the outcomes of a run have distinct places: no two of them share a fact and a rule
-/

namespace Rulebook.Run

variable (keys : List String) (batch : RuleBatch) (records : List Value)

/-- No two facts of a run have one place. -/
theorem facts_index_nodup : ((Opening.of keys batch records).facts.map Fact.index).Nodup :=
  (factsFrom_index keys 0 records).2.imp Nat.ne_of_lt

/-- The rules of a run are a sound registry. -/
theorem registry_sound : (Opening.of keys batch records).registry.Sound :=
  Registry.sound_registerAll batch.definitions

/-! ## Errors -/

/-- **The errors that a run starts with**: the entries that are no rules, the rules that are refused and the
    records that are no objects, each in the order in which they are given. -/
def startErrors : List ErrorReport :=
  batch.rejected.map rejectionReport ++
  (Registry.empty.registerAll batch.definitions).2.map (fun r => refusalReport r.1 r.2) ++
  (factsFrom keys 0 records).2.map fun e => ⟨.unusable e, none, none⟩

/-- A run starts without errors exactly where nothing is left out: no entry of the batch, no rule and no record. -/
theorem startErrors_nil_iff :
    startErrors keys batch records = [] ↔
      batch.rejected = [] ∧
      (Registry.empty.registerAll batch.definitions).1.rules.map CompiledRule.definition = batch.definitions ∧
      ∀ v ∈ records, v.isObject = true := by
  have registered := Registry.empty.registerAll_errors_nil_iff batch.definitions
  simp only [Registry.empty, List.map_nil, List.nil_append] at registered
  rw [startErrors, List.append_eq_nil_iff, List.append_eq_nil_iff, List.map_eq_nil_iff, List.map_eq_nil_iff,
    List.map_eq_nil_iff, unusable_nil_iff, and_assoc]
  exact and_congr_right fun _ => and_congr_left fun _ => registered

/-! ## Fallbacks -/

/-- The outcomes of the fallback. -/
def fallbacks : List Outcome := (Opening.of keys batch records).facts.filterMap fallback?

theorem mem_fallbacks {o : Outcome} :
    o ∈ fallbacks keys batch records ↔ ∃ fact ∈ (Opening.of keys batch records).facts,
      fact.id = none ∧ o = ⟨fallbackName, none, fact.index, true, true, [], [], none⟩ := by
  rw [fallbacks, List.mem_filterMap]
  refine exists_congr fun fact => and_congr_right fun _ => ?_
  cases id : fact.id with
  | some _ => simp [fallback?, id]
  | none => simp [fallback?, id, eq_comm]

/-- There are as many fallbacks as records without an identity. -/
theorem length_fallbacks : (fallbacks keys batch records).length = records.countP (Value.isAnonymous keys) := by
  rw [fallbacks, List.length_filterMap_eq_countP]
  refine countP_facts (fun i v => ?_) 0 records
  cases h : Fact.ofRecord keys i v with
  | error e =>
      -- What is no object has no fact and is not anonymous either.
      cases v with
      | object fields => cases h
      | _ => rfl
  | ok fact =>
      have anonymous := Fact.id_eq_none_iff h
      show (fallback? fact).isSome = _
      cases id : fact.id <;> simpa [fallback?, id] using anonymous

/-! ## The summary -/

/-- **The summary that a run starts from**: what was left out is reported, and the fallbacks are recorded. -/
theorem opening_summary :
    (Opening.of keys batch records).summary = {
      rulesRegistered := (Registry.empty.registerAll batch.definitions).1.rules.length
      recordsEvaluated := records.countP Value.isObject
      totalPairs := 0
      matchedPairs := 0
      fallbackMatches := records.countP (Value.isAnonymous keys)
      actionsSucceeded := 0
      actionsFailed := 0
      skippedRecords := (factsFrom keys 0 records).2.length
      errors := startErrors keys batch records
      outcomes := fallbacks keys batch records } := by
  have isFallback : ∀ o ∈ fallbacks keys batch records, o.fallback = true ∧ o.applied = [] ∧ o.errors = [] := by
    intro o ho
    obtain ⟨fact, -, -, rfl⟩ := (mem_fallbacks keys batch records).mp ho
    exact ⟨rfl, rfl, rfl⟩
  have all : (fallbacks keys batch records).countP (fun o => o.fallback) =
      records.countP (Value.isAnonymous keys) := by
    rw [← length_fallbacks keys batch, List.countP_eq_length]
    exact fun o ho => (isFallback o ho).1
  have noPair : ∀ q : Outcome → Bool, (fallbacks keys batch records).countP (fun o => !o.fallback && q o) = 0 := by
    intro q
    rw [List.countP_eq_zero]
    exact fun o ho => by simp [(isFallback o ho).1]
  have noneApplied : (fallbacks keys batch records).flatMap Outcome.applied = [] :=
    List.flatMap_eq_nil_iff.mpr fun o ho => (isFallback o ho).2.1
  have noErrors : (fallbacks keys batch records).flatMap Outcome.errors = [] :=
    List.flatMap_eq_nil_iff.mpr fun o ho => (isFallback o ho).2.2
  have noPairs := noPair fun _ => true
  simp only [Bool.and_true] at noPairs
  show (fallbacks keys batch records).foldl Summary.record _ = _
  rw [Summary.foldl_record, Summary.foldl_report, all, noPair, noPairs, noneApplied, noErrors]
  simp [Summary.empty, startErrors, length_facts]

/-- A run starts with these errors and no other. -/
theorem opening_errors : (Opening.of keys batch records).summary.errors = startErrors keys batch records := by
  rw [opening_summary]

theorem opening_outcomes : (Opening.of keys batch records).summary.outcomes = fallbacks keys batch records := by
  rw [opening_summary]

/-- **The summary of a run** that recorded some outcomes after its start. -/
theorem recorded_summary (os : List Outcome) :
    (os.foldl Summary.record (Opening.of keys batch records).summary).sorted = {
      rulesRegistered := (Registry.empty.registerAll batch.definitions).1.rules.length
      recordsEvaluated := records.countP Value.isObject
      totalPairs := os.countP fun o => !o.fallback
      matchedPairs := os.countP fun o => !o.fallback && o.matched
      fallbackMatches := records.countP (Value.isAnonymous keys) + os.countP fun o => o.fallback
      actionsSucceeded := (os.flatMap Outcome.applied).length
      actionsFailed := (os.flatMap Outcome.actionErrors).length
      skippedRecords := (factsFrom keys 0 records).2.length
      errors := startErrors keys batch records ++ os.flatMap Outcome.errors
      outcomes := (fallbacks keys batch records ++ os).mergeSort Summary.inOrder } := by
  have failed : (os.flatMap Outcome.errors).filter (fun e => e.cause.action?.isSome) =
      os.flatMap Outcome.actionErrors := List.filter_flatMap
  rw [Summary.sorted, Summary.foldl_record, opening_summary, failed]
  simp

/-! ## Places -/

/-- Fallbacks have distinct places. -/
theorem fallback_places_nodup : ((fallbacks keys batch records).map Summary.place).Nodup := by
  have distinct := List.pairwise_map.mp (facts_index_nodup keys batch records)
  rw [List.Nodup, List.pairwise_map, fallbacks, List.pairwise_filterMap]
  refine distinct.imp fun {fact fact'} ne o ho o' ho' eq => ne ?_
  -- Fallbacks of one place would come from one fact.
  have index : ∀ {fact o}, fallback? fact = some o → o.factIndex = fact.index := by
    intro fact o h
    unfold fallback? at h
    split at h <;> cases h
    rfl
  rw [← index ho, ← index ho']
  exact congrArg Prod.fst eq

/-- The pairs of a fact and a rule that a run evaluates, fact by fact. -/
def pairs (o : Opening) : List (Fact × CompiledRule) :=
  o.facts.flatMap fun fact => o.registry.rules.map fun r => (fact, r)

/-- The place of the outcome of a pair. -/
def pairPlace (p : Fact × CompiledRule) : Nat × String := (p.1.index, p.2.name)

/-- The outcome of a pair has the place of the pair. -/
theorem place_of_isOf {o : Outcome} {p : Fact × CompiledRule} (h : o.IsOf p.2 p.1) : Summary.place o = pairPlace p := by
  rw [Summary.place, h.rule, h.factIndex]
  rfl

/-- The pairs of a run are those of a record that is an object and a rule that is registered. -/
theorem mem_pairs {fact : Fact} {r : CompiledRule} :
    (fact, r) ∈ pairs (Opening.of keys batch records) ↔
      (∃ i v, records[i]? = some v ∧ Fact.ofRecord keys i v = .ok fact) ∧
      r ∈ (Registry.empty.registerAll batch.definitions).1.rules := by
  rw [← mem_facts, pairs, List.mem_flatMap]
  constructor
  · rintro ⟨fact', hf, mem⟩
    obtain ⟨r', hr, same⟩ := List.mem_map.mp mem
    cases same
    exact ⟨hf, hr⟩
  · rintro ⟨hf, hr⟩
    exact ⟨fact, hf, List.mem_map_of_mem hr⟩

theorem map_pairPlace (o : Opening) :
    (pairs o).map pairPlace = (o.facts.map Fact.index).product o.registry.names := by
  simp only [pairs, pairPlace, Registry.names, List.product, List.map_flatMap, List.flatMap_map, List.map_map,
    Function.comp_def]

/-- No two pairs of a run have one place. -/
theorem map_pairPlace_nodup : ((pairs (Opening.of keys batch records)).map pairPlace).Nodup := by
  rw [map_pairPlace]
  exact (facts_index_nodup keys batch records).product (registry_sound keys batch records).nodup

/-- **Every outcome of a run has a place of its own**: the fallbacks before anything is evaluated, and the outcomes
    of the pairs. -/
theorem pair_places_nodup {os : List Outcome} :
    let o := Opening.of keys batch records
    (os.map Summary.place).Perm ((pairs o).map pairPlace) → ((o.summary.outcomes ++ os).map Summary.place).Nodup := by
  intro o perm
  have sound : o.registry.Sound := registry_sound keys batch records
  rw [opening_outcomes keys batch records, List.map_append, List.nodup_append]
  refine ⟨fallback_places_nodup keys batch records,
    perm.nodup_iff.mpr (map_pairPlace_nodup keys batch records), ?_⟩
  -- A place of a fallback has its name, which no rule has.
  rintro p hp q hq rfl
  obtain ⟨fallback, hf, rfl⟩ := List.mem_map.mp hp
  obtain ⟨fact, -, -, rfl⟩ := (mem_fallbacks keys batch records).mp hf
  have mem := perm.mem_iff.mp hq
  rw [map_pairPlace] at mem
  exact sound.noFallback (List.mem_product.mp mem).2

/-- So have one outcome for each pair after the fallbacks. -/
theorem places_nodup {out : CompiledRule → Fact → Outcome} (isOf : ∀ r fact, (out r fact).IsOf r fact) :
    let o := Opening.of keys batch records
    ((o.summary.outcomes ++ o.facts.flatMap fun fact => o.registry.rules.map (out · fact)).map
      Summary.place).Nodup := by
  intro o
  refine pair_places_nodup keys batch records (List.Perm.of_eq ?_)
  rw [pairs, List.map_flatMap, List.map_flatMap]
  refine List.flatMap_congr fun fact _ => ?_
  rw [List.map_map, List.map_map]
  exact List.map_congr_left fun r _ => place_of_isOf (p := (fact, r)) (isOf r fact)

end Rulebook.Run
