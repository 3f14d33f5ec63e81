import Rulebook.Proofs.Run.Pairs

/-!
# `Rulebook.Proofs.Run.Counts` — the counts of a run add up

A run settles every pair once, so the places of its outcomes are known from the input: one for each rule at every
record that is an object, and one more for the fallback where the record has no identity. The counts follow from
that. Counting actions needs a sink that never crashes, because a crash takes the results of a whole pair away; without
one every action that is due was applied or failed.

* `mem_fallback_places`, `mem_pair_places` — where the outcomes of a run are
* `actions_settled` — the actions of pairs, counted one by one
* `AddsUp`, `run_adds_up` — the outcomes and counts of a run
-/

namespace Rulebook.Run

variable (keys : List String) (batch : RuleBatch) (records : List Value)

/-! ## Places -/

/-- The fallback has an outcome at every record that is anonymous. -/
theorem mem_fallback_places {i : Nat} {name : String} :
    (i, name) ∈ (fallbacks keys batch records).map Summary.place ↔
      ∃ v, records[i]? = some v ∧ v.isAnonymous keys = true ∧ name = fallbackName := by
  constructor
  · intro mem
    obtain ⟨o, ho, place⟩ := List.mem_map.mp mem
    obtain ⟨fact, hf, id, rfl⟩ := (mem_fallbacks keys batch records).mp ho
    obtain ⟨j, v, hv, ofRecord⟩ := mem_facts.mp hf
    cases place
    rw [ofRecord_index ofRecord]
    exact ⟨v, hv, (Fact.id_eq_none_iff ofRecord).mp id, rfl⟩
  · rintro ⟨v, hv, anonymous, rfl⟩
    have isObject : v.isObject = true := by
      cases v with
      | object fields => rfl
      | _ => cases anonymous
    obtain ⟨fact, ofRecord⟩ : ∃ fact, Fact.ofRecord keys i v = .ok fact := Fact.exists_ofRecord_iff.mpr isObject
    refine List.mem_map.mpr ⟨_, (mem_fallbacks keys batch records).mpr
      ⟨fact, mem_facts.mpr ⟨i, v, hv, ofRecord⟩, (Fact.id_eq_none_iff ofRecord).mpr anonymous, rfl⟩, ?_⟩
    exact congrArg (·, fallbackName) (ofRecord_index ofRecord)

/-- Every rule has an outcome at every record that is an object. -/
theorem mem_pair_places {i : Nat} {name : String} :
    (i, name) ∈ (pairs (Opening.of keys batch records)).map pairPlace ↔
      ∃ v, records[i]? = some v ∧ v.isObject = true ∧
        name ∈ (Registry.empty.registerAll batch.definitions).1.names := by
  rw [map_pairPlace, List.pair_mem_product, List.mem_map]
  constructor
  · rintro ⟨⟨fact, hf, rfl⟩, registered⟩
    obtain ⟨j, v, hv, ofRecord⟩ := mem_facts.mp hf
    rw [ofRecord_index ofRecord]
    exact ⟨v, hv, Fact.exists_ofRecord_iff.mp ⟨fact, ofRecord⟩, registered⟩
  · rintro ⟨v, hv, isObject, registered⟩
    obtain ⟨fact, ofRecord⟩ := Fact.exists_ofRecord_iff.mpr isObject
    exact ⟨⟨fact, mem_facts.mpr ⟨i, v, hv, ofRecord⟩, ofRecord_index ofRecord⟩, registered⟩

theorem length_pairs :
    (pairs (Opening.of keys batch records)).length =
      (Registry.empty.registerAll batch.definitions).1.rules.length * records.countP Value.isObject := by
  rw [← List.length_map pairPlace, map_pairPlace]
  refine (List.length_product _ _).trans ?_
  rw [List.length_map, Registry.names, List.length_map, Nat.mul_comm]
  exact congrArg _ (length_facts keys records)

/-! ## Actions -/

/-- Where every action is applied or fails, the actions of outcomes are those that the rules that matched declare. -/
theorem actions_settled {g : Registry} {os : List Outcome}
    (settled : ∀ o ∈ os, o.applied.length + o.actionErrors.length =
      if o.isMatch then (g.declaredActions o.rule).length else 0) :
    (os.flatMap Outcome.applied).length + (os.flatMap Outcome.actionErrors).length =
      ((os.filter Outcome.isMatch).map fun o => (g.declaredActions o.rule).length).sum := by
  induction os with
  | nil => rfl
  | cons o os ih =>
      obtain ⟨first, rest⟩ := List.forall_mem_cons.mp settled
      have others := ih rest
      rw [List.flatMap_cons, List.flatMap_cons, List.length_append, List.length_append, List.filter_cons]
      split
      · rename_i matched
        rw [if_pos matched] at first
        rw [List.map_cons, List.sum_cons]
        omega
      · rename_i matched
        rw [if_neg matched] at first
        omega

/-- The matches of a run are those of its pairs. -/
theorem matches_perm (os : List Outcome) :
    (((fallbacks keys batch records ++ os).mergeSort Summary.inOrder).filter Outcome.isMatch).Perm
      (os.filter Outcome.isMatch) := by
  have noMatch : (fallbacks keys batch records).filter Outcome.isMatch = [] := by
    refine List.filter_eq_nil_iff.mpr fun o ho => ?_
    obtain ⟨fact, -, -, rfl⟩ := (mem_fallbacks keys batch records).mp ho
    exact Bool.false_ne_true
  have sorted := (List.mergeSort_perm (fallbacks keys batch records ++ os) Summary.inOrder).filter Outcome.isMatch
  rwa [List.filter_append, noMatch, List.nil_append] at sorted

/-! ## Runs -/

/-- **The outcomes and the counts of a run add up.** -/
structure AddsUp (x : Summary) : Prop where
  /-- No place has two outcomes, and outcomes come in the order of their places. -/
  ordered : x.outcomes.Pairwise Summary.Precedes
  /-- There is an outcome of each rule at every record that is an object, one of the fallback where the record is
      anonymous, and no other. -/
  places : ∀ i name, (i, name) ∈ x.outcomes.map Summary.place ↔
    ∃ v, records[i]? = some v ∧
      (v.isObject = true ∧ name ∈ (Registry.empty.registerAll batch.definitions).1.names ∨
        v.isAnonymous keys = true ∧ name = fallbackName)
  /-- An outcome is marked as one of the fallback, or it is one of a rule at a record and says whether it applies. -/
  marked : ∀ o ∈ x.outcomes, o.fallback = true ∧ o.rule = fallbackName ∨
    ∃ fact r, (fact, r) ∈ pairs (Opening.of keys batch records) ∧ o.IsOf r fact
  rulesRegistered : x.rulesRegistered = (Registry.empty.registerAll batch.definitions).1.rules.length
  recordsEvaluated : x.recordsEvaluated = records.countP Value.isObject
  totalPairs : x.totalPairs = x.rulesRegistered * x.recordsEvaluated
  fallbackMatches : x.fallbackMatches = records.countP (Value.isAnonymous keys)
  matchedPairs : x.matchedPairs = x.outcomes.countP Outcome.isMatch
  /-- Every action of a rule that matched counts once. -/
  actions : x.actionsSucceeded + x.actionsFailed =
    ((x.outcomes.filter Outcome.isMatch).map fun o =>
      ((Registry.empty.registerAll batch.definitions).1.declaredActions o.rule).length).sum

variable {keys batch records}

/-- A pair that was settled without a crash has all actions of its rule, applied or failed. -/
theorem Settled.actions {timeout : Nat} (p : Settled timeout) (calm : p.trace.Obeys noCrash) {g : Registry}
    (sound : g.Sound) (registered : p.rule ∈ g.rules) :
    p.outcome.applied.length + p.outcome.actionErrors.length =
      if p.outcome.isMatch then (g.declaredActions p.outcome.rule).length else 0 := by
  rw [settled_actions p.traces calm, p.isOf.rule, sound.length_declaredActions registered, Outcome.isMatch,
    p.isOf.fallback, p.isOf.matched]
  rfl

/-- The summary of a run without a crash adds up. -/
theorem recorded_addsUp {timeout : Nat} {ps : List (Settled timeout)}
    (once : (ps.map Settled.pair).Perm (pairs (Opening.of keys batch records)))
    (calm : ∀ p ∈ ps, p.trace.Obeys noCrash) :
    AddsUp keys batch records
      ((ps.map Settled.outcome).foldl Summary.record (Opening.of keys batch records).summary).sorted := by
  have isPair : ∀ o ∈ ps.map Settled.outcome, o.fallback = false :=
    List.forall_mem_map.mpr fun p _ => p.isOf.fallback
  have isRegistered : ∀ p ∈ ps, p.pair ∈ pairs (Opening.of keys batch records) :=
    fun p hp => once.mem_iff.mp (List.mem_map_of_mem hp)
  rw [recorded_summary]
  constructor
  case ordered => exact Summary.sorted_precedes (Settled.places_nodup_of_once once)
  case places =>
    intro i name
    have sorted := List.mergeSort_perm (fallbacks keys batch records ++ ps.map Settled.outcome) Summary.inOrder
    rw [(sorted.map Summary.place).mem_iff, List.map_append, List.mem_append, Settled.places_outcomes,
      (once.map pairPlace).mem_iff, mem_fallback_places, mem_pair_places, or_comm, ← exists_or]
    simp only [← and_or_left]
  case marked =>
    intro o ho
    rcases List.mem_append.mp (List.mem_mergeSort.mp ho) with ho | ho
    · obtain ⟨fact, -, -, rfl⟩ := (mem_fallbacks keys batch records).mp ho
      exact .inl ⟨rfl, rfl⟩
    · obtain ⟨p, hp, rfl⟩ := List.mem_map.mp ho
      exact .inr ⟨p.fact, p.rule, isRegistered p hp, p.isOf⟩
  case rulesRegistered => rfl
  case recordsEvaluated => rfl
  case totalPairs =>
    have all : (ps.map Settled.outcome).countP (fun o => !o.fallback) = (ps.map Settled.outcome).length :=
      List.countP_eq_length.mpr fun o ho => by rw [isPair o ho]; rfl
    exact all.trans (by rw [List.length_map, ← List.length_map Settled.pair, once.length_eq, length_pairs])
  case fallbackMatches =>
    have none : (ps.map Settled.outcome).countP (fun o => o.fallback) = 0 :=
      List.countP_eq_zero.mpr fun o ho => by simp [isPair o ho]
    exact congrArg (_ + ·) none
  case matchedPairs =>
    have same := (matches_perm keys batch records (ps.map Settled.outcome)).length_eq
    rw [← List.countP_eq_length_filter, ← List.countP_eq_length_filter] at same
    exact same.symm
  case actions =>
    have matched := matches_perm keys batch records (ps.map Settled.outcome)
    refine (actions_settled (List.forall_mem_map.mpr fun p hp => ?_)).trans (matched.map _).sum_nat.symm
    have registered := ((mem_pairs keys batch records).mp (isRegistered p hp)).2
    exact p.actions (calm p hp) (registry_sound keys batch records) registered

/-- **The outcomes and the counts of a run add up**, on every sink that never crashes, under both strategies and in
    whatever order units work; and such runs end. -/
theorem run_adds_up (settings : EngineSettings) (batch : RuleBatch) (records : List Value) {sink : Sink}
    (calm : sink.NeverCrashes) :
    (∀ permits, permits? settings = some permits → RunsEnd sink permits) ∧
    ∀ x log, Reaches settings sink batch records x log → AddsUp settings.identityKeys batch records x := by
  refine ⟨fun _ h => runsEnd (permits_pos h), ?_⟩
  intro x log reached
  obtain ⟨ps, once, rfl, -, tame⟩ := reaches_pairs calm reached
  exact recorded_addsUp once tame

/-- A rule with two actions, one that does not compile, a record that is anonymous and one that is no object, on a sink
    that refuses its second record. -/
theorem run_adds_up_second_refused :
    let one : Value := .number (.int 1 (by decide))
    let batch : RuleBatch :=
      ⟨[⟨"a", ⟨.all, [.test (.literal "x" "==" one)]⟩, [.alert "first", .alert "second"]⟩,
        ⟨"b", ⟨.any, []⟩, []⟩], []⟩
    let records : List Value := [.null, .object [("x", one)]]
    let sink : Sink := ⟨fun before _ => if before.isEmpty then .accept else .refuse "full"⟩
    sink.NeverCrashes ∧ ∃ x log, Reaches .standard sink batch records x log ∧
      x.actionsSucceeded = 1 ∧ x.actionsFailed = 1 ∧ AddsUp EngineSettings.standard.identityKeys batch records x := by
  intro one batch records sink
  have calm : sink.NeverCrashes := by
    intro before r
    show (if before.isEmpty then Verdict.accept else Verdict.refuse "full").isCrash = false
    split <;> rfl
  have ran : ∃ x log, run .standard sink batch records = .ok (x, log) ∧
      x.actionsSucceeded = 1 ∧ x.actionsFailed = 1 := by
    subst one batch records sink
    exact ⟨_, _, rfl, rfl, rfl⟩
  obtain ⟨x, log, ended, succeeded, failed⟩ := ran
  exact ⟨calm, x, log, reaches_run ended, succeeded, failed,
    (run_adds_up .standard batch records calm).2 x log (reaches_run ended)⟩

end Rulebook.Run
