import Rulebook.Proofs.Run.Pairs

/-!
# `Rulebook.Proofs.Run.Effects` — what reaches the sink

With the sink that accepts everything, a pair of a rule and a fact goes one way only, whatever happens at the sink
between two of its records. So a run leaves the records that its pairs leave alone, each unit in its order, and the
units take turns. The sink does not say which pair a record comes from, but the records can be told apart again: there
is an attribution of them to the pairs that gives every pair its own records in their order. Rule by rule, one unit has
all records of its rule, and so they stay in the order of the facts.

* `CompiledRule.emissions`, `emissions_cases` — the records that a pair leaves alone
* `reaches_emissions` — the records of a run are an interleaving of its units
* `Attribution` — the records of a run told apart by pairs
* `Effects`, `effects_keep_order` — nothing is lost, repeated or reordered within a pair
-/

namespace Rulebook

/-! ## One pair alone -/

/-- The records that a rule leaves on a fact when it runs alone, at the sink that accepts everything. -/
def CompiledRule.emissions (timeout : Nat) (r : CompiledRule) (fact : Fact) : List Emission :=
  ((r.settle timeout fact).run .accepting Log.empty).2.accepted

/-- The rule that allows nothing but acceptance. -/
def onlyAccept : Emission → Verdict → Prop := onlyVerdict fun _ => .accept

theorem Sink.accepting_obeys : Sink.accepting.Obeys onlyAccept := fun _ _ => rfl

/-- Where everything is accepted, all records are. -/
theorem Trace.accepted_of_onlyAccept {tr : Trace} (h : tr.Obeys onlyAccept) : tr.accepted = tr.map Prod.fst := by
  have all : ∀ e ∈ tr, decide (e.2 = .accept) = true := fun e he => decide_eq_true (h e he)
  rw [Trace.accepted, List.filter_eq_self.mpr all]

section

variable {timeout : Nat} {r : CompiledRule} {fact : Fact}

/-- Whenever everything is accepted, a pair leaves the records that it leaves alone. -/
theorem CompiledRule.emissions_eq {tr : Trace} {o : Outcome} (h : (r.settle timeout fact).Traces tr o)
    (accepts : tr.Obeys onlyAccept) : tr.map Prod.fst = r.emissions timeout fact := by
  obtain ⟨tr', traces, accepts', after⟩ := Task.traces_run Sink.accepting_obeys (r.settle timeout fact) Log.empty
  rw [h.trace_unique traces accepts accepts', ← Trace.accepted_of_onlyAccept accepts', emissions, after]
  rfl

/-- **The records of a pair alone** give account of the actions of the rule, or there are none as the rule does not
    match. -/
theorem CompiledRule.emissions_cases (timeout : Nat) (r : CompiledRule) (fact : Fact) :
    (r.applies fact = false ∧ r.emissions timeout fact = []) ∨
    (r.applies fact = true ∧ ∃ xs es, Account r.name fact.id r.actions xs es (r.emissions timeout fact)) := by
  obtain ⟨tr, traces, accepts, -⟩ := Task.traces_run Sink.accepting_obeys (r.settle timeout fact) Log.empty
  rw [← emissions_eq traces accepts, ← Trace.accepted_of_onlyAccept accepts]
  rcases r.settle_cases traces with ⟨idle, silent, -⟩ | ⟨due, -, report, -, account⟩ | ⟨-, crashed, -⟩
  · rw [silent]
    cases applies : r.applies fact with
    | false => exact .inl ⟨rfl, rfl⟩
    | true =>
        -- A rule that matches without being due has no actions to give account of.
        rw [CompiledRule.actions_of_idle idle applies]
        exact .inr ⟨rfl, [], [], .nil⟩
  · exact .inr ⟨(CompiledRule.isDue_iff.mp due).1, _, _, account⟩
  · exact absurd (accepts.calm fun _ => rfl) crashed

/-- A rule that does not match leaves nothing. -/
theorem CompiledRule.emissions_of_unmatched (unmatched : r.applies fact = false) : r.emissions timeout fact = [] := by
  rcases r.emissions_cases timeout fact with ⟨-, silent⟩ | ⟨applies, -⟩
  · exact silent
  · rw [unmatched] at applies
    cases applies

/-- They belong to actions of the rule, in the order in which the rule declares these. -/
theorem CompiledRule.emissions_declared (timeout : Nat) (r : CompiledRule) (fact : Fact) :
    ∃ as : List Action, as.Sublist r.actions ∧
      List.Forall₂ (fun a s => ∃ x, a.Leaves r.name fact.id x s) as (r.emissions timeout fact) := by
  rcases r.emissions_cases timeout fact with ⟨-, silent⟩ | ⟨-, xs, es, account⟩
  · rw [silent]
    exact ⟨[], List.nil_sublist _, .nil⟩
  · exact account.forall₂_sublist

/-- They carry the name of the rule. -/
theorem CompiledRule.rule_emissions : ∀ s ∈ r.emissions timeout fact, s.rule = r.name := by
  rcases r.emissions_cases timeout fact with ⟨-, silent⟩ | ⟨-, xs, es, account⟩
  · rw [silent]
    exact nofun
  · exact account.rule_stored

end

namespace Run

/-- The records that a pair leaves alone. -/
def pairEmissions (timeout : Nat) (p : Fact × CompiledRule) : List Emission := p.2.emissions timeout p.1

theorem Settled.emissions {timeout : Nat} (p : Settled timeout) (accepts : p.trace.Obeys onlyAccept) :
    p.trace.map Prod.fst = pairEmissions timeout p.pair :=
  CompiledRule.emissions_eq p.traces accepts

/-! ## Runs -/

variable {settings : EngineSettings} {batch : RuleBatch} {records : List Value} {x : Summary} {log : Log}

/-- **The records of a run are an interleaving of its units**, each of which leaves the records of its pairs one after
    the other. -/
theorem reaches_emissions (h : Reaches settings .accepting batch records x log) :
    let o := Opening.of settings.identityKeys batch records
    Interleaves ((unitPairs settings.strategy o).map (List.flatMap (pairEmissions settings.actionTimeout)))
      log.accepted := by
  intro o
  obtain ⟨units, history, settled, -, interleaves, rfl, accepts⟩ := reaches_units Sink.accepting_obeys h
  have stored : (Log.empty.after history).accepted = history.map Prod.fst := Trace.accepted_of_onlyAccept accepts
  -- All verdicts of a pair are among those of the run.
  have tame : ∀ ps ∈ units, ∀ p ∈ ps, p.trace.Obeys onlyAccept := by
    intro ps hps p hp e he
    have mem := List.mem_flatten_of_mem (List.mem_map_of_mem hps) (List.mem_flatMap_of_mem hp he)
    exact accepts e (interleaves.perm.mem_iff.mpr mem)
  have unit : (units.map fun ps => ps.flatMap Settled.trace).map (List.map Prod.fst) =
      (units.map (List.map Settled.pair)).map (List.flatMap (pairEmissions settings.actionTimeout)) := by
    rw [List.map_map, List.map_map]
    refine List.map_congr_left fun ps hps => ?_
    show (ps.flatMap Settled.trace).map Prod.fst = (ps.map Settled.pair).flatMap _
    rw [List.map_flatMap, List.flatMap_map]
    exact List.flatMap_congr fun p hp => p.emissions (tame ps hps p hp)
  rw [stored]
  refine Interleaves.perm_left ?_ (settled.map _)
  rw [← unit]
  exact interleaves.map Prod.fst

/-- An attribution of records to the pairs of a run. Each record is told with the place of a pair that matched, and what
    is told of a pair are the records that it leaves alone, in their order. -/
structure Attribution (timeout : Nat) (o : Opening) (stored : List Emission)
    (told : List ((Nat × String) × Emission)) : Prop where
  records : told.map Prod.snd = stored
  owners : ∀ t ∈ told, ∃ p ∈ pairs o, p.2.applies p.1 = true ∧ t.1 = pairPlace p
  parts : ∀ p ∈ pairs o, (told.filter fun t => t.1 = pairPlace p).map Prod.snd = pairEmissions timeout p

/-- The records of a pair, told with its place. -/
def toldOf (timeout : Nat) (p : Fact × CompiledRule) : List ((Nat × String) × Emission) :=
  (pairEmissions timeout p).map fun s => (pairPlace p, s)

theorem place_of_toldOf {timeout : Nat} {p : Fact × CompiledRule} : ∀ t ∈ toldOf timeout p, t.1 = pairPlace p := by
  intro t ht
  obtain ⟨s, -, rfl⟩ := List.mem_map.mp ht
  rfl

theorem map_snd_toldOf (timeout : Nat) (p : Fact × CompiledRule) :
    (toldOf timeout p).map Prod.snd = pairEmissions timeout p := by
  rw [toldOf, List.map_map]
  exact List.map_id _

/-- A part of a concatenation stands in it in its order. -/
theorem sublist_flatMap {α β : Type} {xs : List α} {f : α → List β} {x : α} (mem : x ∈ xs) :
    (f x).Sublist (xs.flatMap f) := by
  rw [List.flatMap_def]
  exact List.sublist_flatten_of_mem (List.mem_map_of_mem mem)

/-- The units of a run have the parts of its pairs and no other. -/
theorem flatten_units_perm {α : Type} (strategy : Strategy) (o : Opening) (f : Fact × CompiledRule → List α) :
    ((unitPairs strategy o).map (List.flatMap f)).flatten.Perm ((pairs o).flatMap f) := by
  rw [flatten_map_flatMap]
  exact (unitPairs_flatten strategy o).flatMap_right f

section

variable {strategy : Strategy} {timeout : Nat} {o : Opening} {stored : List Emission}

/-- **The records of a run can be told apart**, where pairs have distinct places. -/
theorem exists_attribution (places : ((pairs o).map pairPlace).Nodup)
    (turns : Interleaves ((unitPairs strategy o).map (List.flatMap (pairEmissions timeout))) stored) :
    ∃ told, Attribution timeout o stored told := by
  -- The units take turns in the same way when every record is told with its place.
  have named : (unitPairs strategy o).map (List.flatMap (pairEmissions timeout)) =
      ((unitPairs strategy o).map (List.flatMap (toldOf timeout))).map (List.map Prod.snd) := by
    rw [List.map_map]
    refine List.map_congr_left fun ps _ => ?_
    show ps.flatMap (pairEmissions timeout) = (ps.flatMap (toldOf timeout)).map Prod.snd
    rw [List.map_flatMap]
    exact List.flatMap_congr fun p _ => (map_snd_toldOf timeout p).symm
  rw [named] at turns
  obtain ⟨told, turns, records⟩ := turns.of_map
  have all := flatten_units_perm strategy o (toldOf timeout)
  refine ⟨told, records, ?_, ?_⟩
  · intro t ht
    obtain ⟨p, hp, mem⟩ := List.mem_flatMap.mp ((turns.perm.trans all).mem_iff.mp ht)
    refine ⟨p, hp, ?_, place_of_toldOf t mem⟩
    cases applies : p.2.applies p.1 with
    | true => rfl
    | false =>
        rw [toldOf, pairEmissions, CompiledRule.emissions_of_unmatched applies] at mem
        cases mem
  · intro p hp
    obtain ⟨ps, hps, mem⟩ := List.mem_flatten.mp ((unitPairs_flatten strategy o).mem_iff.mpr hp)
    have own : ((pairs o).flatMap (toldOf timeout)).filter (fun t => t.1 = pairPlace p) = toldOf timeout p :=
      Summary.filter_flatMap_key (fun q _ => place_of_toldOf) places hp
    rw [turns.filter_eq (List.mem_map_of_mem hps) (sublist_flatMap mem) ((all.filter _).trans (.of_eq own)),
      map_snd_toldOf]

/-- **Rule by rule, the records of a rule are in the order of the facts.** -/
theorem emissions_of_rule (names : o.registry.names.Nodup)
    (turns : Interleaves ((unitPairs .ruleParallel o).map (List.flatMap (pairEmissions timeout))) stored)
    {r : CompiledRule} (mem : r ∈ o.registry.rules) :
    (stored.filter fun s => s.rule = r.name) = o.facts.flatMap (r.emissions timeout) := by
  have units : (unitPairs .ruleParallel o).map (List.flatMap (pairEmissions timeout)) =
      o.registry.rules.map fun r => o.facts.flatMap (r.emissions timeout) := by
    rw [unitPairs, List.map_map]
    refine List.map_congr_left fun r _ => ?_
    show (o.facts.map (·, r)).flatMap (pairEmissions timeout) = o.facts.flatMap (r.emissions timeout)
    rw [List.flatMap_map]
    rfl
  rw [units] at turns
  refine turns.filter_eq (List.mem_map_of_mem mem) (List.Sublist.refl _) (.of_eq ?_)
  rw [← List.flatMap_def]
  refine Summary.filter_flatMap_key (fun r _ s hs => ?_) names mem
  obtain ⟨fact, -, hs⟩ := List.mem_flatMap.mp hs
  exact CompiledRule.rule_emissions s hs

/-- Members whose parts are empty may be left out of a concatenation. -/
theorem flatMap_filter_of_nil {α β : Type} {xs : List α} {f : α → List β} {q : α → Bool}
    (silent : ∀ x ∈ xs, q x = false → f x = []) : (xs.filter q).flatMap f = xs.flatMap f := by
  induction xs with
  | nil => rfl
  | cons x xs ih =>
      obtain ⟨first, rest⟩ := List.forall_mem_cons.mp silent
      cases kept : q x with
      | true => rw [List.filter_cons_of_pos kept, List.flatMap_cons, List.flatMap_cons, ih rest]
      | false =>
          rw [List.filter_cons_of_neg (by simp [kept]), List.flatMap_cons, first kept, ih rest, List.nil_append]

/-- **The records of a run are those of the pairs that matched.** -/
theorem emissions_perm
    (turns : Interleaves ((unitPairs strategy o).map (List.flatMap (pairEmissions timeout))) stored) :
    stored.Perm (((pairs o).filter fun p => p.2.applies p.1).flatMap (pairEmissions timeout)) := by
  refine (turns.perm.trans (flatten_units_perm strategy o (pairEmissions timeout))).trans (.of_eq ?_)
  exact (flatMap_filter_of_nil fun p _ unmatched => CompiledRule.emissions_of_unmatched unmatched).symm

end

/-- **What a run leaves at the sink that accepts everything.** -/
structure Effects (settings : EngineSettings) (o : Opening) (stored : List Emission) : Prop where
  /-- All records of the pairs that matched are there, and no other. -/
  union : stored.Perm (((pairs o).filter fun p => p.2.applies p.1).flatMap (pairEmissions settings.actionTimeout))
  /-- The records of a pair are told in the order in which it leaves them alone. -/
  told : ∃ told, Attribution settings.actionTimeout o stored told
  /-- This is the order in which its rule declares its actions. -/
  declared : ∀ p ∈ pairs o, ∃ as : List Action, as.Sublist p.2.actions ∧
    List.Forall₂ (fun a s => ∃ x, a.Leaves p.2.name p.1.id x s) as (pairEmissions settings.actionTimeout p)
  /-- Rule by rule, all records of a rule are in the order of the facts. -/
  byRule : settings.strategy = .ruleParallel → ∀ r ∈ o.registry.rules,
    (stored.filter fun s => s.rule = r.name) = o.facts.flatMap (r.emissions settings.actionTimeout)

/-- **Nothing is lost, repeated or reordered.** With the sink that accepts everything, a run under either strategy ends,
    in whatever order its units work, with the records that the pairs that matched leave alone. The records of a pair
    stay in the order in which its rule declares its actions; rule by rule, those of a rule stay in the order of the
    facts as well. -/
theorem effects_keep_order (h : Reaches settings .accepting batch records x log) :
    Effects settings (Opening.of settings.identityKeys batch records) log.accepted := by
  have turns := reaches_emissions h
  refine ⟨emissions_perm turns, exists_attribution (map_pairPlace_nodup settings.identityKeys batch records) turns,
    fun p _ => p.2.emissions_declared settings.actionTimeout p.1, fun parallel r mem => ?_⟩
  rw [parallel] at turns
  exact emissions_of_rule (registry_sound settings.identityKeys batch records).nodup turns mem

/-- Two rules on two records, rule by rule: the first rule alerts twice on both of them, the other one updates one of
    them. -/
theorem effects_keep_order_two_rules :
    let one : Value := .number (.int 1 (by decide))
    let two : Value := .number (.int 2 (by decide))
    let batch : RuleBatch :=
      ⟨[⟨"a", ⟨.all, [.test (.literal "x" ">" (.number (.int 0 (by decide))))]⟩, [.alert "seen", .alert "again"]⟩,
        ⟨"b", ⟨.all, [.test (.literal "x" "==" two)]⟩, [.update "x" "x + 1", .alert "done"]⟩], []⟩
    let records : List Value := [.object [("id", one), ("x", one)], .object [("x", two)]]
    let settings : EngineSettings := { EngineSettings.standard with strategy := .ruleParallel }
    ∃ x log, Reaches settings .accepting batch records x log ∧ log.accepted.length = 6 ∧
      Effects settings (Opening.of settings.identityKeys batch records) log.accepted := by
  intro one two batch records settings
  have ran : ∃ x log, run settings .accepting batch records = .ok (x, log) ∧ log.accepted.length = 6 := by
    subst one two batch records settings
    exact ⟨_, _, rfl, rfl⟩
  obtain ⟨x, log, ended, counted⟩ := ran
  exact ⟨x, log, reaches_run ended, counted, effects_keep_order (reaches_run ended)⟩

end Run

end Rulebook
