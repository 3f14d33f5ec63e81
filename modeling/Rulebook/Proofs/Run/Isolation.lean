import Rulebook.Proofs.Reading
import Rulebook.Proofs.Run.Pairs

/-!
# `Rulebook.Proofs.Run.Isolation` — pairs do not interfere

Whatever else happens in a run, the outcome of a rule on a record is that of the rule alone on the record alone. Every
run settles each of its pairs once, from the fact as it was read and the rule as it was compiled; the sink gives the
same record the same verdict at all times; and so nothing that another pair does has a way into the outcome. What is left
of the run is the place of the record in it. A fact carries its place along, but no condition, no expression and no
message looks at it, so another place shows in the outcome as that place and in nothing else.

* `Fact.atPlace`, `Outcome.atPlace` — a fact and an outcome with another place
* `performAll_atPlace`, `settle_atPlace` — the actions of a rule and its outcome at another place
* `outcomesAt_pair` — the outcome of a pair in a run, from the pair alone
* `pairs_do_not_interfere` — any two runs give a rule on a record the same outcome
-/

namespace Rulebook

/-! ## Another place -/

/-- A fact at another place of its batch. -/
def Fact.atPlace (j : Nat) (f : Fact) : Fact := { f with index := j }

@[simp] theorem Fact.get_atPlace (j : Nat) (f : Fact) (p : Path) : (f.atPlace j).get p = f.get p := rfl

theorem Fact.set_atPlace (j : Nat) (f : Fact) (p : Path) (v : Value) :
    (f.atPlace j).set p v = ((f.set p v).1.atPlace j, (f.set p v).2) := rfl

/-- What an action hands over, with the fact at another place. -/
def Offer.atPlace (j : Nat) (o : Offer) : Offer := { o with fact := o.fact.map (Fact.atPlace j) }

/-- A report with its working copy at another place. -/
def Report.atPlace (j : Nat) (r : Report) : Report := { r with fact := r.fact.map (Fact.atPlace j) }

/-- An outcome with its fact at another place. -/
def Outcome.atPlace (j : Nat) (o : Outcome) : Outcome := { o with factIndex := j }

/-- An action works out the same for a fact at another place, whether it succeeds or fails. -/
theorem Action.prepare_atPlace (j : Nat) (rule : String) (fact : Option Fact) (a : Action) :
    a.prepare rule (fact.map (Fact.atPlace j)) = (a.prepare rule fact).map (Offer.atPlace j) := by
  cases a with
  | update target source expression =>
      cases fact with
      | none => rfl
      | some f =>
          cases expression with
          | error e => rfl
          | ok e =>
              have value : e.evaluateValue (f.atPlace j) = e.evaluateValue f :=
                Expression.evaluateValue_congr fun p _ => f.get_atPlace j p
              simp only [Option.map_some, Action.prepare, mapError_ok, bind, Except.bind, value, Fact.set_atPlace]
              cases e.evaluateValue f with
              | error e => rfl
              | ok v =>
                  simp only [mapError_ok]
                  cases (f.set target v).2 <;> rfl
  | redistribute params => cases fact <;> rfl
  | alert message => cases fact <;> rfl
  | notify recipient template =>
      have message : Template.render template (fact.map (Fact.atPlace j)) = Template.render template fact := by
        cases fact with
        | none => rfl
        | some f => exact Template.render_congr (fun p => f.get_atPlace j p) template
      have id : (fact.map (Fact.atPlace j)).bind Fact.id = fact.bind Fact.id := by cases fact <;> rfl
      simp only [Action.prepare, message, id]
      cases recipient? recipient <;> rfl

/-- **A series of actions on a fact at another place** hands over the same records and leaves the same report, with the
    fact at that place. -/
theorem performAll_atPlace (j timeout : Nat) (rule : String) (as : List Action) (report : Report) :
    performAll timeout rule as (report.atPlace j) =
      (performAll timeout rule as report).map (Except.map (Report.atPlace j)) := by
  induction as generalizing report with
  | nil => rfl
  | cons a rest ih =>
      have prepared : a.prepare rule (report.atPlace j).fact = (a.prepare rule report.fact).map (Offer.atPlace j) :=
        Action.prepare_atPlace j rule report.fact a
      rw [performAll, performAll, prepared]
      cases a.prepare rule report.fact with
      | error e => exact ih (report.fail a.kind e)
      | ok offer =>
          show Task.emit offer.emission _ = Task.emit offer.emission _
          congr 1
          funext v
          cases v with
          | accept => exact ih (report.apply offer)
          | refuse reason => exact ih (report.fail a.kind (.refused reason))
          | hang => exact ih (report.fail a.kind (.timedOut timeout))
          | crash reason => rfl

namespace CompiledRule

variable (j timeout : Nat) (r : CompiledRule) (fact : Fact)

theorem applies_atPlace : r.applies (fact.atPlace j) = r.applies fact :=
  Predicate.holds_congr fun p _ => fact.get_atPlace j p

theorem evaluate_atPlace : r.evaluate (fact.atPlace j) = (r.evaluate fact).atPlace j := by
  rw [evaluate, applies_atPlace]
  rfl

theorem conclude_atPlace (report : Report) :
    r.conclude (fact.atPlace j) (report.atPlace j) = (r.conclude fact report).atPlace j := by
  have fields : (report.fact.map (Fact.atPlace j)).map Fact.fields = report.fact.map Fact.fields := by
    cases report.fact <;> rfl
  simp only [conclude, evaluate_atPlace, Report.atPlace, fields]
  rfl

theorem brokenOff_atPlace (c : Crash) : r.brokenOff (fact.atPlace j) c = (r.brokenOff fact c).atPlace j := by
  rw [brokenOff, evaluate_atPlace]
  rfl

/-- **A rule on a fact at another place** hands over the same records and comes to the same outcome, at that place. -/
theorem settle_atPlace : r.settle timeout (fact.atPlace j) = (r.settle timeout fact).map (Outcome.atPlace j) := by
  have due : r.isDue (fact.atPlace j) = r.isDue fact := by rw [isDue, isDue, applies_atPlace]
  rw [settle, settle, act, act, due]
  split
  · have performs : r.perform timeout (some (fact.atPlace j)) =
        (r.perform timeout (some fact)).map (Except.map (Report.atPlace j)) :=
      performAll_atPlace j timeout r.name r.actions ⟨[], [], some fact⟩
    rw [performs, Task.map_map, Task.map_map, Task.map_map, Task.map_map]
    congr 1
    funext result
    cases result with
    | error c => exact r.brokenOff_atPlace j fact c
    | ok report => exact r.conclude_atPlace j fact report
  · exact congrArg Task.done (r.evaluate_atPlace j fact)

end CompiledRule

namespace Run

/-! ## One pair of a run -/

variable {verdict : Emission → Verdict} {sink sink' : Sink} {settings settings' : EngineSettings}
  {batch batch' : RuleBatch} {records records' : List Value} {x y : Summary} {log log' : Log}

/-- **The outcome of a pair in a run is that of the pair alone**, with a sink that gives a record the same verdict at all
    times. It is the only outcome that the run has at its place. -/
theorem outcomesAt_pair (steady : sink.Obeys (onlyVerdict verdict)) (h : Reaches settings sink batch records x log)
    {fact : Fact} {r : CompiledRule} (mem : (fact, r) ∈ pairs (Opening.of settings.identityKeys batch records)) :
    x.outcomesAt fact.index r.name = [(r.settle settings.actionTimeout fact).resultUnder verdict] := by
  obtain ⟨ps, settled, summary, -, obeys⟩ := reaches_pairs steady h
  obtain ⟨p, hp, pair⟩ := List.mem_map.mp (settled.mem_iff.mpr mem)
  cases pair
  have outcome : p.outcome = (p.rule.settle settings.actionTimeout p.fact).resultUnder verdict :=
    p.traces.eq_resultUnder (obeys p hp)
  have perm : x.outcomes.Perm (fallbacks settings.identityKeys batch records ++ ps.map Settled.outcome) := by
    rw [summary, recorded_summary]
    exact List.mergeSort_perm _ _
  have distinct : (x.outcomes.map Summary.place).Nodup :=
    (perm.map Summary.place).nodup_iff.mpr (Settled.places_nodup_of_once settled)
  have recorded : p.outcome ∈ x.outcomes :=
    perm.mem_iff.mpr (List.mem_append_right _ (List.mem_map_of_mem hp))
  have found := Summary.outcomesAt_place distinct recorded
  rw [p.isOf.factIndex, p.isOf.rule] at found
  rw [← outcome]
  exact found

/-! ## Two runs -/

/-- **Pairs do not interfere.** Two runs read identities by the same keys, give actions the same time, and their sinks
    give a record the same verdict, whatever they were offered before. They may differ in everything else: strategies,
    permits and the order of units, the other rules and what they do, the other records and their order. If a rule is
    registered in both and an object is a record of both, then each of them has one outcome of that rule on that
    record, and the outcomes are the same but for the place of the record. -/
theorem pairs_do_not_interfere (sameKeys : settings.identityKeys = settings'.identityKeys)
    (sameTimeout : settings.actionTimeout = settings'.actionTimeout) (steady : sink.Obeys (onlyVerdict verdict))
    (steady' : sink'.Obeys (onlyVerdict verdict)) (hx : Reaches settings sink batch records x log)
    (hy : Reaches settings' sink' batch' records' y log') {d : RuleDefinition}
    (registered : d ∈ (Registry.empty.registerAll batch.definitions).1.rules.map CompiledRule.definition)
    (registered' : d ∈ (Registry.empty.registerAll batch'.definitions).1.rules.map CompiledRule.definition)
    {i j : Nat} {fields : Fields} (here : records[i]? = some (.object fields))
    (there : records'[j]? = some (.object fields)) :
    ∃ o, x.outcomesAt i d.name = [o] ∧ y.outcomesAt j d.name = [{ o with factIndex := j }] := by
  obtain ⟨r, hr, rfl⟩ := List.mem_map.mp registered
  obtain ⟨r', hr', definition⟩ := List.mem_map.mp registered'
  -- Both registries compiled the rule from the same definition, so they have the same rule.
  have same : r' = r := by
    have left := (registry_sound settings.identityKeys batch records).recompiles r hr
    have right := (registry_sound settings'.identityKeys batch' records').recompiles r' hr'
    rw [definition] at right
    exact Except.ok.inj (right.symm.trans left)
  subst same
  let fact : Fact := ⟨i, settings.identityKeys.findSome? fun k => (Fields.get? k fields).bind Fact.identity?, fields⟩
  have pair : (fact, r') ∈ pairs (Opening.of settings.identityKeys batch records) :=
    (mem_pairs _ _ _).mpr ⟨⟨i, .object fields, here, rfl⟩, hr⟩
  have pair' : (fact.atPlace j, r') ∈ pairs (Opening.of settings'.identityKeys batch' records') := by
    rw [← sameKeys]
    exact (mem_pairs _ _ _).mpr ⟨⟨j, .object fields, there, rfl⟩, hr'⟩
  refine ⟨(r'.settle settings.actionTimeout fact).resultUnder verdict, outcomesAt_pair steady hx pair, ?_⟩
  have shown := outcomesAt_pair steady' hy pair'
  rw [r'.settle_atPlace, Task.resultUnder_map, ← sameTimeout] at shown
  exact shown

/-- A rule on a record, alone and rule by rule; and after a rule that writes to its field, behind a record that is no
    object, record by record. The sink refuses alerts. -/
theorem pairs_do_not_interfere_moved :
    let one : Value := .number (.int 1 (by decide))
    let applies : Group := ⟨.all, [.test (.literal "x" "==" one)]⟩
    let d : RuleDefinition := ⟨"b", applies, [.update "x" "x + 1", .alert "seen"]⟩
    let other : RuleDefinition := ⟨"a", applies, [.update "x" "x - 1", .notify none "lost"]⟩
    let record : Value := .object [("x", one)]
    let sink : Sink := ⟨fun _ r => if r.kind = .alert then .refuse "full" else .accept⟩
    let standard := EngineSettings.standard
    ∃ x y log log',
      Reaches { standard with strategy := .ruleParallel } sink ⟨[d], []⟩ [record] x log ∧
      Reaches { standard with strategy := .recordSequential } sink ⟨[other, d], [⟨2, none⟩]⟩ [.null, record] y log' ∧
      ∃ o, x.outcomesAt 0 "b" = [o] ∧ y.outcomesAt 1 "b" = [{ o with factIndex := 1 }] := by
  intro one applies d other record sink standard
  have steady : sink.Obeys (onlyVerdict fun r => if r.kind = .alert then .refuse "full" else .accept) :=
    fun _ _ => rfl
  obtain ⟨x, log, alone⟩ := exists_reaches { standard with strategy := .ruleParallel } sink ⟨[d], []⟩ [record] rfl
  obtain ⟨y, log', among⟩ := exists_reaches { standard with strategy := .recordSequential } sink
    ⟨[other, d], [⟨2, none⟩]⟩ [.null, record] rfl
  have registered : d ∈ (Registry.empty.registerAll [d]).1.rules.map CompiledRule.definition := by
    subst one applies d
    exact List.mem_cons_self
  have registered' : d ∈ (Registry.empty.registerAll [other, d]).1.rules.map CompiledRule.definition := by
    subst one applies d other
    exact List.mem_cons_of_mem _ List.mem_cons_self
  refine ⟨x, y, log, log', alone, among, ?_⟩
  apply pairs_do_not_interfere (d := d) _ _ steady steady alone among registered registered'
  · rfl
  · rfl
  · rfl
  · rfl

end Run

end Rulebook
