import Rulebook.Proofs.Document
import Rulebook.Proofs.Run.Pairs

/-!
# `Rulebook.Proofs.Run.Entries` — nothing that is given to a run vanishes

An entry of a document of rules passes three gates: it is decoded, its name and its parts are checked, and it is
evaluated. At the first two it can be stopped, and then there is one error that says so, of a kind that stands for that;
after them there are only errors of actions and crashes, of other kinds. So the rules of a run and its errors of these
kinds are as many as the entries. Records have one gate, and the same holds of them.

* `ErrorKind.concernsRule` — the kinds of errors that stop an entry
* `settled_errors_kind`, `Settled.errors_kind` — evaluating adds none of them
* `Summary.errorCount_rules`, `countP_startErrors` — errors of these kinds, counted
* `recorded_entries`, `recorded_records` — entries and records, counted
* `nothing_vanishes` — nothing that is given to a run vanishes
-/

namespace Rulebook

/-! ## Kinds of errors -/

/-- Whether errors of a kind say that an entry is no rule or that a rule is refused. -/
def ErrorKind.concernsRule : ErrorKind → Bool
  | compile | unsupportedOperator | duplicateRuleName => true
  | _ => false

/-- An error that concerns a rule is of one of the three kinds only. -/
theorem ErrorKind.single_kind (kind : ErrorKind) :
    ((if kind = .compile then 1 else 0) + (if kind = .unsupportedOperator then 1 else 0) +
      if kind = .duplicateRuleName then 1 else 0) = if kind.concernsRule = true then 1 else 0 := by
  cases kind <;> rfl

theorem RuleError.concernsRule_kind (e : RuleError) : e.kind.concernsRule = true := by
  cases e with
  | unsupportedOperator rule operator => rfl
  | defective rule defect => rfl
  | duplicateName name => rfl

/-- A kind that concerns a rule does not concern a record as a whole. -/
theorem ErrorKind.ne_serialization {kind : ErrorKind} (h : kind.concernsRule = true) : kind ≠ .serialization := by
  rintro rfl
  cases h

/-- Errors of actions concern neither rules nor records as a whole. -/
theorem ActionError.kind_other (e : ActionError) : e.kind.concernsRule = false ∧ e.kind ≠ .serialization := by
  cases e with
  | contextMissing => exact ⟨rfl, nofun⟩
  | expression e => exact ⟨rfl, nofun⟩
  | missingRecipient => exact ⟨rfl, nofun⟩
  | invalidTarget target e => exact ⟨rfl, nofun⟩
  | refused reason => exact ⟨rfl, nofun⟩
  | timedOut milliseconds => exact ⟨rfl, nofun⟩

/-- **Evaluating a pair adds no error** that concerns a rule or a record as a whole. -/
theorem settled_errors_kind {timeout : Nat} {r : CompiledRule} {fact : Fact} {tr : Trace} {o : Outcome}
    (h : (r.settle timeout fact).Traces tr o) :
    ∀ e ∈ o.errors, e.kind.concernsRule = false ∧ e.kind ≠ .serialization := by
  intro e he
  rcases settled_errors_cause h e he with ⟨kind, failure, cause⟩ | ⟨c, cause⟩
  · rw [ErrorReport.kind, cause]
    exact failure.kind_other
  · rw [ErrorReport.kind, cause]
    exact ⟨rfl, nofun⟩

namespace Summary

theorem errorCount_eq_countP (s : Summary) (kind : ErrorKind) :
    s.errorCount kind = s.errors.countP fun e => e.kind = kind :=
  (List.countP_eq_length_filter (l := s.errors)).symm

/-- The errors that concern rules are those of three kinds. -/
theorem errorCount_rules (s : Summary) :
    s.errorCount .compile + s.errorCount .unsupportedOperator + s.errorCount .duplicateRuleName =
      s.errors.countP fun e => e.kind.concernsRule := by
  simp only [errorCount_eq_countP]
  induction s.errors with
  | nil => rfl
  | cons e es ih =>
      have head := e.kind.single_kind
      simp only [List.countP_cons, decide_eq_true_eq]
      omega

end Summary

namespace Run

/-! ## Errors of a run -/

section

variable (keys : List String) (batch : RuleBatch) (records : List Value)

/-- The errors that a run starts with, by their kinds: an entry that is no rule counts as one that does not compile. -/
theorem countP_startErrors (kinds : ErrorKind → Bool) :
    (startErrors keys batch records).countP (fun e => kinds e.kind) =
      batch.rejected.countP (fun _ => kinds .compile) +
      (Registry.empty.registerAll batch.definitions).2.countP (fun r => kinds r.2.kind) +
      (factsFrom keys 0 records).2.countP (fun _ => kinds .serialization) := by
  rw [startErrors, List.countP_append, List.countP_append, List.countP_map, List.countP_map, List.countP_map]
  rfl

/-- Each entry that is no rule and each rule that is refused gives one error that concerns a rule, and nothing else
    does. -/
theorem countP_startErrors_rules :
    (startErrors keys batch records).countP (fun e => e.kind.concernsRule) =
      batch.rejected.length + (Registry.empty.registerAll batch.definitions).2.length := by
  have entries : batch.rejected.countP (fun _ => ErrorKind.compile.concernsRule) = batch.rejected.length :=
    List.countP_eq_length.mpr fun _ _ => rfl
  have rules : (Registry.empty.registerAll batch.definitions).2.countP (fun r => r.2.kind.concernsRule) =
      (Registry.empty.registerAll batch.definitions).2.length :=
    List.countP_eq_length.mpr fun r _ => r.2.concernsRule_kind
  have unusable : (factsFrom keys 0 records).2.countP (fun _ => ErrorKind.serialization.concernsRule) = 0 :=
    List.countP_eq_zero.mpr fun _ _ => Bool.false_ne_true
  rw [countP_startErrors, entries, rules, unusable, Nat.add_zero]

/-- Each record that is no object gives one error that concerns a record as a whole, and nothing else does. -/
theorem countP_startErrors_records :
    (startErrors keys batch records).countP (fun e => e.kind = .serialization) =
      (factsFrom keys 0 records).2.length := by
  have entries : batch.rejected.countP (fun _ => decide (ErrorKind.compile = .serialization)) = 0 :=
    List.countP_eq_zero.mpr fun _ _ => Bool.false_ne_true
  have rules : (Registry.empty.registerAll batch.definitions).2.countP
      (fun r => decide (r.2.kind = .serialization)) = 0 := by
    refine List.countP_eq_zero.mpr fun r _ => ?_
    have kind : r.2.kind ≠ .serialization := ErrorKind.ne_serialization r.2.concernsRule_kind
    simpa using kind
  have unusable : (factsFrom keys 0 records).2.countP (fun _ => decide (ErrorKind.serialization = .serialization)) =
      (factsFrom keys 0 records).2.length :=
    List.countP_eq_length.mpr fun _ _ => rfl
  rw [countP_startErrors keys batch records (fun kind => decide (kind = .serialization)), entries, rules, unusable,
    Nat.zero_add]

end

variable {timeout : Nat}

/-- The outcomes of pairs add no errors of these kinds, however many of them there are. -/
theorem Settled.errors_kind {ps : List (Settled timeout)} :
    ∀ e ∈ (ps.map Settled.outcome).flatMap Outcome.errors,
      e.kind.concernsRule = false ∧ e.kind ≠ .serialization := by
  intro e he
  obtain ⟨o, ho, mem⟩ := List.mem_flatMap.mp he
  obtain ⟨p, -, rfl⟩ := List.mem_map.mp ho
  exact settled_errors_kind p.traces e mem

/-- Of kinds that no pair adds, a summary has the errors that the run starts with. -/
theorem countP_recorded_errors (keys : List String) (batch : RuleBatch) (records : List Value)
    {ps : List (Settled timeout)} (kinds : ErrorKind → Bool)
    (apart : ∀ e ∈ (ps.map Settled.outcome).flatMap Outcome.errors, kinds e.kind = false) :
    let x := ((ps.map Settled.outcome).foldl Summary.record (Opening.of keys batch records).summary).sorted
    x.errors.countP (fun e => kinds e.kind) = (startErrors keys batch records).countP fun e => kinds e.kind := by
  intro x
  have errors : x.errors = startErrors keys batch records ++ (ps.map Settled.outcome).flatMap Outcome.errors :=
    congrArg Summary.errors (recorded_summary keys batch records _)
  have evaluating : ((ps.map Settled.outcome).flatMap Outcome.errors).countP (fun e => kinds e.kind) = 0 :=
    List.countP_eq_zero.mpr fun e he => Bool.eq_false_iff.mp (apart e he)
  rw [errors, List.countP_append, evaluating, Nat.add_zero]

/-! ## Entries and records -/

section

variable (keys : List String) {batch : RuleBatch} (records : List Value)

/-- The summary of a run that has settled pairs accounts for the rules: those that are registered and the errors that
    concern rules are as many as the entries that were divided. -/
theorem recorded_entries {numbered : List (Value × Nat)} {positions : List Nat}
    (divides : batch.Divides numbered positions) (ps : List (Settled timeout)) :
    let x := ((ps.map Settled.outcome).foldl Summary.record (Opening.of keys batch records).summary).sorted
    x.rulesRegistered +
      (x.errorCount .compile + x.errorCount .unsupportedOperator + x.errorCount .duplicateRuleName) =
        numbered.length := by
  intro x
  have registered : x.rulesRegistered = (Registry.empty.registerAll batch.definitions).1.rules.length :=
    congrArg Summary.rulesRegistered (recorded_summary keys batch records _)
  have reported : x.errors.countP (fun e => e.kind.concernsRule) =
      batch.rejected.length + (Registry.empty.registerAll batch.definitions).2.length :=
    (countP_recorded_errors keys batch records ErrorKind.concernsRule fun e he => (Settled.errors_kind e he).1).trans
      (countP_startErrors_rules keys batch records)
  -- Of the definitions that were decoded, those that are not registered are refused.
  have decoded := divides.length
  have refused := Registry.empty.length_registerAll batch.definitions
  have nothing : Registry.empty.rules.length = 0 := rfl
  rw [Summary.errorCount_rules, reported, registered]
  omega

/-- And for the records: those that are evaluated and the errors that concern records are as many as were given, and
    the skipped ones are those with an error. -/
theorem recorded_records (batch : RuleBatch) (ps : List (Settled timeout)) :
    let x := ((ps.map Settled.outcome).foldl Summary.record (Opening.of keys batch records).summary).sorted
    x.recordsEvaluated + x.errorCount .serialization = records.length ∧
      x.skippedRecords = x.errorCount .serialization := by
  intro x
  have evaluated : x.recordsEvaluated = (factsFrom keys 0 records).1.length :=
    (congrArg Summary.recordsEvaluated (recorded_summary keys batch records _)).trans (length_facts keys records).symm
  have skipped : x.skippedRecords = (factsFrom keys 0 records).2.length :=
    congrArg Summary.skippedRecords (recorded_summary keys batch records _)
  have reported : x.errorCount .serialization = (factsFrom keys 0 records).2.length := by
    rw [Summary.errorCount_eq_countP]
    refine (countP_recorded_errors keys batch records (fun kind => decide (kind = .serialization)) ?_).trans
      (countP_startErrors_records keys batch records)
    intro e he
    exact decide_eq_false (Settled.errors_kind e he).2
  rw [evaluated, skipped, reported]
  exact ⟨length_factsFrom keys 0 records, rfl⟩

end

/-- **Nothing that is given to a run vanishes.** A document that is read has entries; its definitions and what is set
    aside divide them, and each entry that is set aside keeps its position. A run on them ends, and in every summary
    that it can come to the rules that are registered and the errors that concern rules are as many as the entries;
    the records that are evaluated and the errors that concern records are as many as the records, and the skipped
    records are those with an error. -/
theorem nothing_vanishes (settings : EngineSettings) (sink : Sink) {document : Value} {batch : RuleBatch}
    (accepted : RuleBatch.ofDocument document = .ok batch) (records : List Value) :
    ∃ entries positions, document.HasEntries entries ∧ batch.Divides entries.zipIdx positions ∧
      (∀ permits, permits? settings = some permits → RunsEnd sink permits) ∧
      ∀ x log, Reaches settings sink batch records x log →
        x.rulesRegistered +
          (x.errorCount .compile + x.errorCount .unsupportedOperator + x.errorCount .duplicateRuleName) =
            entries.length ∧
        x.recordsEvaluated + x.errorCount .serialization = records.length ∧
        x.skippedRecords = x.errorCount .serialization := by
  obtain ⟨entries, positions, has, divides⟩ := RuleBatch.ofDocument_divides accepted
  refine ⟨entries, positions, has, divides, fun _ h => runsEnd (permits_pos h), ?_⟩
  intro x log reached
  obtain ⟨ps, -, rfl, -, -⟩ := reaches_pairs sink.obeys_anyVerdict reached
  have rules := recorded_entries settings.identityKeys records divides ps
  rw [List.length_zipIdx] at rules
  exact ⟨rules, recorded_records settings.identityKeys records batch ps⟩

/-- Under `rules` a rule, a row with a rule of the same name, a null and a rule with an operator that is none; and a
    record besides one that is no object. -/
theorem nothing_vanishes_mixed :
    let rule (name operator : String) : Value :=
      .object [("actions", .array []), ("condition", .object [("all", .array [.object [("field", .string "x"),
        ("operator", .string operator), ("value", .string "y")]])]), ("name", .string name)]
    let document : Value := .object [("rules", .array
      [rule "a" "==", .object [("id", .string "r"), ("rule", rule "a" "=="), ("type", .string "alert")], .null,
        rule "b" "~"])]
    let records : List Value := [.object [("x", .string "y")], .null]
    let sink : Sink := ⟨fun _ _ => .accept⟩
    ∃ batch, RuleBatch.ofDocument document = .ok batch ∧ batch.rejected = [⟨2, none⟩] ∧
      (∃ x log, Reaches .standard sink batch records x log ∧ x.rulesRegistered = 1 ∧ x.errors.length = 4) ∧
      ∃ entries positions, document.HasEntries entries ∧ batch.Divides entries.zipIdx positions ∧
        (∀ permits, permits? .standard = some permits → RunsEnd sink permits) ∧
        ∀ x log, Reaches .standard sink batch records x log →
          x.rulesRegistered +
            (x.errorCount .compile + x.errorCount .unsupportedOperator + x.errorCount .duplicateRuleName) =
              entries.length ∧
          x.recordsEvaluated + x.errorCount .serialization = records.length ∧
          x.skippedRecords = x.errorCount .serialization := by
  intro rule document records sink
  have read : ∃ batch, RuleBatch.ofDocument document = .ok batch ∧ batch.rejected = [⟨2, none⟩] ∧
      ∃ x log, run .standard sink batch records = .ok (x, log) ∧ x.rulesRegistered = 1 ∧ x.errors.length = 4 := by
    subst rule document records sink
    exact ⟨_, rfl, rfl, _, _, rfl, rfl, rfl⟩
  obtain ⟨batch, accepted, rejected, x, log, ended, registered, failed⟩ := read
  exact ⟨batch, accepted, rejected, ⟨x, log, reaches_run ended, registered, failed⟩,
    nothing_vanishes .standard sink accepted records⟩

end Run

end Rulebook
