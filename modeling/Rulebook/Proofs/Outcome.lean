import Rulebook.Proofs.Execution

/-!
# `Rulebook.Proofs.Outcome` — what a rule comes to on a fact

`settle_cases` says once how a pair of a rule and a fact comes to its outcome: nothing is due, or the actions come to
their end and the outcome is what the report says, or the sink crashes and the outcome says only that. What is known
of single outcomes follows by a look at these three cases.

* `Outcome.IsOf`, `settle_isOf` — whose outcome it is
* `settled_errors_cause` — where the errors of an outcome come from
* `settled_actions` — without a crash, every action that is due was applied or failed
* `settled_errors_nil_iff` — an outcome has no errors exactly where it has a result of every action that is due
* `Outcome.Lists`, `Trace.Loses`, `settled_lists_iff` — an outcome lists what the sink accepted, unless the sink
  crashes after that
-/

namespace Rulebook

/-! ## Three ways to an outcome -/

namespace CompiledRule

variable {timeout : Nat} {r : CompiledRule} {fact : Fact} {tr : Trace} {o : Outcome}

/-- **How a pair comes to its outcome.** -/
theorem settle_cases (h : (r.settle timeout fact).Traces tr o) :
    (r.isDue fact = false ∧ tr = [] ∧ o = r.evaluate fact) ∨
    (r.isDue fact = true ∧ tr.Obeys noCrash ∧ ∃ report, o = r.conclude fact report ∧
      Account r.name fact.id r.actions report.applied report.failed tr.accepted) ∨
    (r.isDue fact = true ∧ ¬ tr.Obeys noCrash ∧ ∃ c, o = r.brokenOff fact c) := by
  obtain ⟨x, acts, rfl⟩ := Task.traces_map_iff.mp h
  rw [act] at acts
  cases due : r.isDue fact with
  | false =>
      rw [due] at acts
      obtain ⟨rfl, rfl⟩ := Task.traces_done_iff.mp acts
      exact .inl ⟨rfl, rfl, rfl⟩
  | true =>
      rw [due, if_pos rfl] at acts
      obtain ⟨result, performs, rfl⟩ := Task.traces_map_iff.mp acts
      cases result with
      | error c => exact .inr (.inr ⟨rfl, performAll_error performs, c, rfl⟩)
      | ok report =>
          obtain ⟨tame, xs, es, g, account, applied, failed, -, -⟩ := performAll_ok rfl performs
          rw [List.nil_append] at applied failed
          subst applied failed
          exact .inr (.inl ⟨rfl, tame, report, rfl, account⟩)

/-- Actions that are broken off met a crash. -/
theorem act_error {c : Crash} (h : (r.act timeout fact).Traces tr (.error c)) : ¬ tr.Obeys noCrash := by
  rw [act] at h
  split at h
  · obtain ⟨result, performs, broken⟩ := Task.traces_map_iff.mp h
    cases result with
    | error c => exact performAll_error performs
    | ok report => cases broken
  · obtain ⟨-, broken⟩ := Task.traces_done_iff.mp h
    cases broken

/-- What is due matched and has an action at least. -/
theorem isDue_iff : r.isDue fact = true ↔ r.applies fact = true ∧ r.actions ≠ [] := by
  simp [isDue]

/-- A rule that matched without being due has no actions. -/
theorem actions_of_idle (idle : r.isDue fact = false) (applies : r.applies fact = true) : r.actions = [] := by
  simpa [isDue, applies] using idle

end CompiledRule

/-! ## Whose outcome it is -/

/-- What the actions of a rule leave of its outcome on a fact: the pair, its match and that it is no
    fallback. -/
structure Outcome.IsOf (o : Outcome) (r : CompiledRule) (fact : Fact) : Prop where
  rule : o.rule = r.name
  factId : o.factId = fact.id
  factIndex : o.factIndex = fact.index
  matched : o.matched = r.applies fact
  fallback : o.fallback = false

section

variable {timeout : Nat} {r : CompiledRule} {fact : Fact} {tr : Trace} {o : Outcome}

/-- Whatever the sink does, the outcome of a pair is an outcome of that pair. -/
theorem CompiledRule.settle_isOf (h : (r.settle timeout fact).Traces tr o) : o.IsOf r fact := by
  rcases r.settle_cases h with ⟨-, -, rfl⟩ | ⟨-, -, report, rfl, -⟩ | ⟨-, -, c, rfl⟩
  · exact ⟨rfl, rfl, rfl, rfl, rfl⟩
  · exact ⟨rfl, rfl, rfl, rfl, rfl⟩
  · exact ⟨rfl, rfl, rfl, rfl, rfl⟩

/-- Whether an outcome is that of a rule that matched. The fallback is no rule. -/
def Outcome.isMatch (o : Outcome) : Bool := !o.fallback && o.matched

/-! ## Actions and errors -/

/-- The errors of actions in an outcome. -/
def Outcome.actionErrors (o : Outcome) : List ErrorReport := o.errors.filter fun e => e.cause.action?.isSome

/-- All errors that a report adds to an outcome are errors of actions. -/
theorem CompiledRule.actionErrors_conclude (r : CompiledRule) (fact : Fact) (report : Report) :
    (r.conclude fact report).actionErrors.length = report.failed.length := by
  have all : (r.conclude fact report).actionErrors = (r.conclude fact report).errors := by
    refine List.filter_eq_self.mpr fun e he => ?_
    obtain ⟨⟨kind, e⟩, -, rfl⟩ := List.mem_map.mp he
    rfl
  rw [all]
  exact List.length_map _

/-- What is reported in the outcome of a pair is the failure of an action or a crash, and nothing else. -/
theorem settled_errors_cause (h : (r.settle timeout fact).Traces tr o) :
    ∀ e ∈ o.errors, (∃ kind failure, e.cause = .action kind failure) ∨ ∃ c, e.cause = .crash c := by
  intro e he
  rcases r.settle_cases h with ⟨-, -, rfl⟩ | ⟨-, -, report, rfl, -⟩ | ⟨-, -, c, rfl⟩
  · cases he
  · obtain ⟨⟨kind, failure⟩, -, rfl⟩ := List.mem_map.mp he
    exact .inl ⟨kind, failure, rfl⟩
  · rw [List.mem_singleton.mp he]
    exact .inr ⟨c, rfl⟩

/-- **Without a crash every action of a rule that matched was applied or failed**, and of a rule that did not match
    none. -/
theorem settled_actions (h : (r.settle timeout fact).Traces tr o) (calm : tr.Obeys noCrash) :
    o.applied.length + o.actionErrors.length = if r.applies fact then r.actions.length else 0 := by
  rcases r.settle_cases h with ⟨idle, -, rfl⟩ | ⟨due, -, report, rfl, account⟩ | ⟨-, crashed, -⟩
  · split
    · rename_i applies
      rw [CompiledRule.actions_of_idle idle applies]
      rfl
    · rfl
  · rw [CompiledRule.actionErrors_conclude, if_pos (CompiledRule.isDue_iff.mp due).1]
    exact account.length_eq
  · exact absurd calm crashed

/-- An outcome has a result of every action of a rule, each in its place. -/
def Outcome.Completes (o : Outcome) (r : CompiledRule) : Prop :=
  List.Forall₂ (fun a x => ∃ payload, Action.Yields a x payload) r.actions o.applied

/-- **An outcome has no errors** exactly where it has a result of every action, unless the rule did not match. -/
theorem settled_errors_nil_iff (h : (r.settle timeout fact).Traces tr o) :
    o.errors = [] ↔ (r.applies fact = true → o.Completes r) := by
  rcases r.settle_cases h with ⟨idle, -, rfl⟩ | ⟨due, -, report, rfl, account⟩ | ⟨due, -, c, rfl⟩
  · refine iff_of_true rfl fun applies => ?_
    rw [Outcome.Completes, CompiledRule.actions_of_idle idle applies]
    exact .nil
  · have failed : (r.conclude fact report).errors = [] ↔ report.failed = [] := List.map_eq_nil_iff
    rw [failed]
    constructor
    · exact fun none _ => account.forall₂_reported none
    · intro complete
      -- As many results as actions leave no place for an error.
      have all : r.actions.length = report.applied.length := (complete (CompiledRule.isDue_iff.mp due).1).length_eq
      have sum := account.length_eq
      exact List.length_eq_zero_iff.mp (by omega)
  · -- An outcome that was broken off has an error and no result, but there is an action.
    obtain ⟨applies, acting⟩ := CompiledRule.isDue_iff.mp due
    refine iff_of_false (List.cons_ne_nil _ _) fun complete => acting ?_
    have all : r.actions.length = 0 := (complete applies).length_eq
    exact List.length_eq_zero_iff.mp all

/-! ## What the sink accepted -/

/-- An outcome of a rule on a fact lists records: its results belong to them, one by one and in their order. -/
def Outcome.Lists (o : Outcome) (r : CompiledRule) (fact : Fact) (stored : List Emission) : Prop :=
  List.Forall₂ (fun x s => ∃ a ∈ r.actions, a.Leaves r.name fact.id x s) o.applied stored

/-- The sink accepted a record of a trace and crashed on another one. -/
def Trace.Loses (tr : Trace) : Prop := tr.accepted ≠ [] ∧ ¬ tr.Obeys noCrash

/-- **An outcome lists what the sink accepted** exactly where the sink did not crash after accepting a record. -/
theorem settled_lists_iff (h : (r.settle timeout fact).Traces tr o) :
    o.Lists r fact tr.accepted ↔ ¬ tr.Loses := by
  rcases r.settle_cases h with ⟨-, rfl, rfl⟩ | ⟨-, tame, report, rfl, account⟩ | ⟨-, crashed, c, rfl⟩
  · exact iff_of_true .nil fun loses => loses.1 rfl
  · exact iff_of_true account.forall₂_stored fun loses => loses.2 tame
  · -- No result is left in the outcome, so it lists what was accepted only where nothing was.
    have nothing : (r.brokenOff fact c).Lists r fact tr.accepted ↔ tr.accepted = [] := by
      show List.Forall₂ _ [] tr.accepted ↔ _
      rw [List.forall₂_nil_left_iff]
    rw [nothing, Trace.Loses, and_iff_left crashed, not_not]

/-- An outcome that has lost what the sink accepted lists nothing. -/
theorem settled_applied_of_loses (h : (r.settle timeout fact).Traces tr o) (loses : tr.Loses) : o.applied = [] := by
  rcases r.settle_cases h with ⟨-, -, rfl⟩ | ⟨-, tame, -⟩ | ⟨-, -, c, rfl⟩
  · rfl
  · exact absurd tame loses.2
  · rfl

end

end Rulebook
