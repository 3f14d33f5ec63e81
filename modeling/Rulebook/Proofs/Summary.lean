import Mathlib.Data.List.Nodup
import Mathlib.Data.List.Perm.Basic
import Rulebook.Summary

/-!
# `Rulebook.Proofs.Summary` — summaries and the order of outcomes

A summary keeps what it records in the order in which it comes, and counts it. So the counts, the outcomes and
the errors of a summary depend on the order of what was recorded only as far as lists do: recording the same
outcomes in another order permutes outcomes and errors and leaves every count. Sorting undoes the permutation
of the outcomes when no two of them belong to one pair, because then their places in the order are distinct.

* `foldl_record` — a summary after any number of outcomes
* `sorted_outcomes_eq` — permuted outcomes of distinct pairs are equal once they are sorted
* `sorted_precedes` — sorted outcomes of distinct pairs come strictly one before the other
* `outcomesAt_place` — outcomes of distinct pairs are found by their places
* `Summary.Agrees` — summaries that differ in the order of errors only; `agrees_of_perm`
-/

namespace Rulebook.Summary

/-! ## Recording -/

/-- **A summary after any number of outcomes.** -/
theorem foldl_record (s : Summary) (os : List Outcome) :
    os.foldl record s =
      { s with
        fallbackMatches := s.fallbackMatches + os.countP fun o => o.fallback
        totalPairs := s.totalPairs + os.countP fun o => !o.fallback
        matchedPairs := s.matchedPairs + os.countP fun o => !o.fallback && o.matched
        actionsSucceeded := s.actionsSucceeded + (os.flatMap Outcome.applied).length
        actionsFailed :=
          s.actionsFailed + ((os.flatMap Outcome.errors).filter fun e => e.cause.action?.isSome).length
        errors := s.errors ++ os.flatMap Outcome.errors
        outcomes := s.outcomes ++ os } := by
  induction os generalizing s with
  | nil => simp
  | cons o os ih =>
      rw [List.foldl_cons, ih]
      cases fallback : o.fallback <;> simp [record, fallback, List.countP_cons] <;> omega

/-- Reports go to the end of the errors and change nothing else. -/
theorem foldl_report (s : Summary) (es : List ErrorReport) :
    es.foldl report s = { s with errors := s.errors ++ es } := by
  induction es generalizing s with
  | nil => simp
  | cons e es ih => rw [List.foldl_cons, ih]; simp [report]

/-! ## Sorting -/

/-- The place of an outcome in a summary: its fact, then its rule. -/
def place (o : Outcome) : Nat × String := (o.factIndex, o.rule)

theorem inOrder_iff {a b : Outcome} :
    inOrder a b = true ↔ a.factIndex < b.factIndex ∨ a.factIndex = b.factIndex ∧ a.rule ≤ b.rule := by
  simp [inOrder]

theorem inOrder_trans (a b c : Outcome) (hab : inOrder a b = true) (hbc : inOrder b c = true) :
    inOrder a c = true := by
  rw [inOrder_iff] at *
  rcases hab with hab | ⟨hab, rab⟩
  · rcases hbc with hbc | ⟨hbc, _⟩
    · exact .inl (by omega)
    · exact .inl (by omega)
  · rcases hbc with hbc | ⟨hbc, rbc⟩
    · exact .inl (by omega)
    · exact .inr ⟨by omega, String.le_trans rab rbc⟩

theorem inOrder_total (a b : Outcome) : (inOrder a b || inOrder b a) = true := by
  rw [Bool.or_eq_true, inOrder_iff, inOrder_iff]
  rcases Nat.lt_trichotomy a.factIndex b.factIndex with h | h | h
  · exact .inl (.inl h)
  · rcases String.le_total a.rule b.rule with r | r
    · exact .inl (.inr ⟨h, r⟩)
    · exact .inr (.inr ⟨h.symm, r⟩)
  · exact .inr (.inl h)

/-- Outcomes that come before each other have the same place. -/
theorem place_eq_of_inOrder {a b : Outcome} (hab : inOrder a b = true) (hba : inOrder b a = true) :
    place a = place b := by
  rw [inOrder_iff] at hab hba
  have index : a.factIndex = b.factIndex := by omega
  have rule : a.rule = b.rule :=
    String.le_antisymm (hab.resolve_left (by omega)).2 (hba.resolve_left (by omega)).2
  rw [place, place, index, rule]

/-- **Sorting undoes a permutation** of outcomes that have distinct places. -/
theorem sorted_outcomes_eq {os os' : List Outcome} (distinct : (os.map place).Nodup) (perm : os.Perm os') :
    os.mergeSort inOrder = os'.mergeSort inOrder := by
  have perm' : (os.mergeSort inOrder).Perm (os'.mergeSort inOrder) :=
    (List.mergeSort_perm os _).trans (perm.trans (List.mergeSort_perm os' _).symm)
  -- Two sorted lists of the same outcomes are equal when outcomes in order both ways are.
  refine perm'.eq_of_pairwise ?_ (List.pairwise_mergeSort inOrder_trans inOrder_total os)
    (List.pairwise_mergeSort inOrder_trans inOrder_total os')
  intro a b ha hb hab hba
  have ha : a ∈ os := List.mem_mergeSort.mp ha
  have hb : b ∈ os := perm.mem_iff.mpr (List.mem_mergeSort.mp hb)
  exact List.inj_on_of_nodup_map distinct ha hb (place_eq_of_inOrder hab hba)

/-- Outcome `a` comes before `b`: by fact, then by rule. -/
def Precedes (a b : Outcome) : Prop := a.factIndex < b.factIndex ∨ a.factIndex = b.factIndex ∧ a.rule < b.rule

/-- **Sorted outcomes of distinct places come strictly one before the other.** -/
theorem sorted_precedes {os : List Outcome} (distinct : (os.map place).Nodup) :
    (os.mergeSort inOrder).Pairwise Precedes := by
  have apart : (os.mergeSort inOrder).Pairwise fun a b => place a ≠ place b :=
    List.pairwise_map.mp (((List.mergeSort_perm os inOrder).map place).nodup_iff.mpr distinct)
  refine ((List.pairwise_mergeSort inOrder_trans inOrder_total os).and apart).imp ?_
  rintro a b ⟨le, ne⟩
  rcases inOrder_iff.mp le with index | ⟨index, rule⟩
  · exact .inl index
  · refine .inr ⟨index, Std.lt_of_le_of_ne rule fun same => ne ?_⟩
    rw [place, place, index, same]

/-! ## Outcomes by place -/

/-- Where parts carry the keys of what they belong to and no key comes twice, a key picks out its part. -/
theorem filter_flatMap_key {α β κ : Type} [DecidableEq κ] {xs : List α} {part : α → List β} {key : α → κ}
    {keyOf : β → κ} (carried : ∀ x ∈ xs, ∀ b ∈ part x, keyOf b = key x) (distinct : (xs.map key).Nodup) {x : α}
    (mem : x ∈ xs) : (xs.flatMap part).filter (fun b => keyOf b = key x) = part x := by
  obtain ⟨before, after, rfl⟩ := List.append_of_mem mem
  rw [List.map_append, List.map_cons, List.nodup_middle, List.nodup_cons, ← List.map_append, List.mem_map] at distinct
  have own : (part x).filter (fun b => keyOf b = key x) = part x :=
    List.filter_eq_self.mpr fun b hb => decide_eq_true (carried x mem b hb)
  -- The parts of the others carry other keys.
  have nothing : ∀ ys : List α, (∀ y ∈ ys, y ∈ before ++ after) →
      (ys.flatMap part).filter (fun b => keyOf b = key x) = [] := by
    intro ys others
    rw [List.filter_eq_nil_iff]
    intro b hb same
    obtain ⟨y, hy, hb⟩ := List.mem_flatMap.mp hb
    have there : y ∈ before ++ x :: after := List.mem_append.mpr
      ((List.mem_append.mp (others y hy)).imp_right (List.mem_cons_of_mem x))
    exact distinct.1 ⟨y, others y hy, (carried y there b hb).symm.trans (of_decide_eq_true same)⟩
  rw [List.flatMap_append, List.flatMap_cons, List.filter_append, List.filter_append, own,
    nothing before fun y => List.mem_append_left after, nothing after fun y => List.mem_append_right before,
    List.nil_append, List.append_nil]

/-- The outcomes of a rule at a place in the list of records. -/
def outcomesAt (s : Summary) (index : Nat) (rule : String) : List Outcome :=
  s.outcomes.filter fun o => place o = (index, rule)

/-- Where outcomes have distinct places, each of them is the only one at its place. -/
theorem outcomesAt_place {s : Summary} {o : Outcome} (distinct : (s.outcomes.map place).Nodup)
    (mem : o ∈ s.outcomes) : s.outcomesAt o.factIndex o.rule = [o] := by
  have carried : ∀ o ∈ s.outcomes, ∀ o' ∈ [o], place o' = place o :=
    fun o _ o' ho' => congrArg place (List.mem_singleton.mp ho')
  have single := filter_flatMap_key carried distinct mem
  rwa [List.flatMap_singleton'] at single

/-! ## Agreement -/

/-- **Two summaries agree** on everything but the order of the errors that came after the start of the run. -/
structure Agrees (start : List ErrorReport) (x y : Summary) : Prop where
  outcomes : x.outcomes = y.outcomes
  rulesRegistered : x.rulesRegistered = y.rulesRegistered
  recordsEvaluated : x.recordsEvaluated = y.recordsEvaluated
  skippedRecords : x.skippedRecords = y.skippedRecords
  totalPairs : x.totalPairs = y.totalPairs
  matchedPairs : x.matchedPairs = y.matchedPairs
  fallbackMatches : x.fallbackMatches = y.fallbackMatches
  actionsSucceeded : x.actionsSucceeded = y.actionsSucceeded
  actionsFailed : x.actionsFailed = y.actionsFailed
  errors : ∃ ex ey, x.errors = start ++ ex ∧ y.errors = start ++ ey ∧ ex.Perm ey

/-- **The same outcomes in two orders** give summaries that agree. -/
theorem agrees_of_perm {s : Summary} {os os' : List Outcome} (perm : os.Perm os')
    (distinct : ((s.outcomes ++ os).map place).Nodup) :
    Agrees s.errors (os.foldl record s).sorted (os'.foldl record s).sorted := by
  simp only [foldl_record, sorted]
  exact {
    outcomes := sorted_outcomes_eq distinct (perm.append_left _)
    rulesRegistered := rfl
    recordsEvaluated := rfl
    skippedRecords := rfl
    totalPairs := congrArg (s.totalPairs + ·) (perm.countP_eq _)
    matchedPairs := congrArg (s.matchedPairs + ·) (perm.countP_eq _)
    fallbackMatches := congrArg (s.fallbackMatches + ·) (perm.countP_eq _)
    actionsSucceeded := congrArg (s.actionsSucceeded + ·) (perm.flatMap_right _).length_eq
    actionsFailed := congrArg (s.actionsFailed + ·) ((perm.flatMap_right _).filter _).length_eq
    errors := ⟨_, _, rfl, rfl, perm.flatMap_right _⟩ }

end Rulebook.Summary
