import Mathlib.Data.List.Forall2
import Rulebook.Execution
import Rulebook.Proofs.Except
import Rulebook.Proofs.Path
import Rulebook.Proofs.Task

/-!
# `Rulebook.Proofs.Execution` — what a series of actions leaves behind

A series of actions leaves three things: the report of what was applied and what failed, the records that the sink
accepted, and the working copy of the fact. They tell one story. Every action stands in the report once, in its
place; every action that was applied has one record at the sink, and nothing else has; and the writes in these records,
made again on the fact from before, lead to the working copy.

`performAll_cons_cases` says once what the first action of a series can do: it fails and nothing is kept of it, or it
is applied and its record is kept, or the sink crashes and the series is over.

* `Action.Yields`, `Action.Leaves` — the result of an action and its record
* `Account` — the account of a series of actions
* `Fact.rewrite`, `replay` — the writes in the records of updates, made again
* `Action.prepare_spec` — what an action hands over tells of what it does
* `performAll_ok`, `performAll_error` — a series that comes to its end, and one that is broken off
* `perform_tells_one_story` — the report, the sink and the fact after all actions of a rule
-/

namespace Rulebook

/-! ## Actions, results and records -/

/-- An action yields a result and a payload: what it reports when it is applied, and what it hands over. -/
def Action.Yields : Action → ActionResult → Value → Prop
  | update target _ _, x, payload => ∃ v, x = ⟨.update, some target.text, some v⟩ ∧
      payload = .object [("target", .string target.text), ("value", v)]
  | redistribute params, x, payload => x = ⟨.redistribute, none, some (.object params)⟩ ∧
      payload = .object params
  | alert message, x, payload => x = ⟨.alert, none, some (.string message)⟩ ∧
      payload = .object [("message", .string message)]
  | notify recipient template, x, payload => ∃ r message, recipient? recipient = some r ∧
      x = ⟨.notify, some r, some (.string message)⟩ ∧
      payload = .object [("message", .string message), ("recipient", .string r), ("template", .string template)]

theorem Action.Yields.kind {a : Action} {x : ActionResult} {payload : Value} (h : a.Yields x payload) :
    x.action = a.kind := by
  cases a with
  | update target source expression => obtain ⟨v, rfl, -⟩ := h; rfl
  | redistribute params => obtain ⟨rfl, -⟩ := h; rfl
  | alert message => obtain ⟨rfl, -⟩ := h; rfl
  | notify recipient template => obtain ⟨r, message, -, rfl, -⟩ := h; rfl

/-- An action of a rule on a fact of some identity leaves a result and a record: the record is of its kind, of the
    rule and of that identity, and the payload in it belongs to the result. -/
structure Action.Leaves (rule : String) (factId : Option String) (a : Action) (x : ActionResult) (s : Emission) :
    Prop where
  kind : s.kind = a.kind
  rule : s.rule = rule
  factId : s.factId = factId
  yields : a.Yields x s.payload

/-- **The account of a series of actions** of a rule on a fact of some identity: each action in its turn is applied,
    with one result and one record, or it fails, with one error and no record. -/
inductive Account (rule : String) (factId : Option String) :
    List Action → List ActionResult → List (ActionKind × ActionError) → List Emission → Prop where
  | nil : Account rule factId [] [] [] []
  | applied {a : Action} {x : ActionResult} {s : Emission} {as : List Action} {xs : List ActionResult}
      {es : List (ActionKind × ActionError)} {ss : List Emission} (leaves : a.Leaves rule factId x s)
      (rest : Account rule factId as xs es ss) : Account rule factId (a :: as) (x :: xs) es (s :: ss)
  | failed {a : Action} {as : List Action} {xs : List ActionResult} {es : List (ActionKind × ActionError)}
      {ss : List Emission} (e : ActionError) (rest : Account rule factId as xs es ss) :
      Account rule factId (a :: as) xs ((a.kind, e) :: es) ss

namespace Account

variable {rule : String} {factId : Option String} {as : List Action} {xs : List ActionResult}
  {es : List (ActionKind × ActionError)} {ss : List Emission}

/-- Every action of an account stands in one of its two lists. -/
theorem length_eq (h : Account rule factId as xs es ss) : xs.length + es.length = as.length := by
  induction h with
  | nil => rfl
  | applied leaves rest ih => simp only [List.length_cons]; omega
  | failed e rest ih => simp only [List.length_cons]; omega

/-- The results of an account and its records belong together, one by one. -/
theorem forall₂_stored (h : Account rule factId as xs es ss) :
    List.Forall₂ (fun x s => ∃ a ∈ as, a.Leaves rule factId x s) xs ss := by
  induction h with
  | nil => exact .nil
  | @applied a x s as xs es ss leaves rest ih =>
      refine .cons ⟨a, List.mem_cons_self, leaves⟩ (ih.imp ?_)
      rintro x s ⟨b, mem, leaves⟩
      exact ⟨b, List.mem_cons_of_mem a mem, leaves⟩
  | @failed a as xs es ss e rest ih =>
      refine ih.imp ?_
      rintro x s ⟨b, mem, leaves⟩
      exact ⟨b, List.mem_cons_of_mem a mem, leaves⟩

/-- The records of an account are those of some of its actions, in the order of these. -/
theorem forall₂_sublist (h : Account rule factId as xs es ss) :
    ∃ bs, bs.Sublist as ∧ List.Forall₂ (fun a s => ∃ x, a.Leaves rule factId x s) bs ss := by
  induction h with
  | nil => exact ⟨[], .slnil, .nil⟩
  | @applied a x s as xs es ss leaves rest ih =>
      obtain ⟨bs, sublist, each⟩ := ih
      exact ⟨a :: bs, sublist.cons_cons a, .cons ⟨x, leaves⟩ each⟩
  | @failed a as xs es ss e rest ih =>
      obtain ⟨bs, sublist, each⟩ := ih
      exact ⟨bs, sublist.cons a, each⟩

/-- The records of an account carry the name of the rule. -/
theorem rule_stored (h : Account rule factId as xs es ss) : ∀ s ∈ ss, s.rule = rule := by
  induction h with
  | nil => exact nofun
  | applied leaves rest ih => exact List.forall_mem_cons.mpr ⟨leaves.rule, ih⟩
  | failed e rest ih => exact ih

/-- An account without errors has a result of every action. -/
theorem forall₂_reported (h : Account rule factId as xs es ss) (none : es = []) :
    List.Forall₂ (fun a x => ∃ payload, a.Yields x payload) as xs := by
  induction h with
  | nil => exact .nil
  | applied leaves rest ih => exact .cons ⟨_, leaves.yields⟩ (ih none)
  | failed e rest ih => cases none

/-- An account has an update among its results exactly where it has one among its records. -/
theorem update_applied_iff (h : Account rule factId as xs es ss) :
    (∃ x ∈ xs, x.action = .update) ↔ ∃ s ∈ ss, s.kind = .update := by
  induction h with
  | nil => simp
  | applied leaves rest ih => simp only [List.mem_cons, exists_eq_or_imp, leaves.kind, leaves.yields.kind, ih]
  | failed e rest ih => exact ih

end Account

/-! ## Writes made again -/

/-- The fact after the write that the record of an update tells of; other records tell of no write. -/
def Fact.rewrite (f : Fact) (s : Emission) : Option Fact :=
  match s.kind with
  | .update => do
    let target ← (s.payload.field? "target").bind Value.text?
    let value ← s.payload.field? "value"
    let path ← (Path.parse target).toOption
    match f.set path value with
    | (g, none) => some g
    | (_, some _) => none
  | _ => some f

/-- The fact after the writes of records, made one after the other. -/
def replay (f : Fact) (stored : List Emission) : Option Fact := stored.foldlM Fact.rewrite f

theorem replay_cons {f g : Fact} {s : Emission} (h : f.rewrite s = some g) (stored : List Emission) :
    replay f (s :: stored) = replay g stored := by
  rw [replay, List.foldlM_cons, h]
  rfl

/-- The record of an update tells of the write of its value at its target. -/
theorem Fact.rewrite_update {f g : Fact} {target : Path} {value : Value} (h : f.set target value = (g, none))
    (rule : String) (factId : Option String) :
    f.rewrite ⟨.update, rule, factId, .object [("target", .string target.text), ("value", value)]⟩ = some g := by
  have parsed : (Path.parse target.text).toOption = some target := by rw [Path.parse_text]; rfl
  show ((Path.parse target.text).toOption.bind fun path => match f.set path value with
    | (g, none) => some g
    | (_, some _) => none) = some g
  rw [parsed, Option.bind_some, h]

/-! ## One action -/

/-- **What an action hands over tells of what it does**: the record is of its kind and of the identity that the fact
    has, it yields its result, and it tells of the write that leads to the new fact. -/
theorem Action.prepare_spec {rule : String} {f : Fact} {a : Action} {offer : Offer}
    (h : a.prepare rule (some f) = .ok offer) :
    ∃ g, a.Leaves rule f.id offer.result offer.emission ∧ offer.fact = some g ∧
      f.rewrite offer.emission = some g ∧ g.id = f.id := by
  cases a with
  | update target source expression =>
      obtain ⟨e, -, h⟩ := bind_eq_ok.mp h
      obtain ⟨value, -, h⟩ := bind_eq_ok.mp h
      cases written : f.set target value with
      | mk g obstacle =>
          rw [written] at h
          cases obstacle with
          | some e => cases h
          | none =>
              cases h
              -- A write leaves the identity of the fact, also one at an identity key.
              have id : g.id = f.id := congrArg (fun p => p.1.id) written.symm
              exact ⟨g, ⟨rfl, rfl, rfl, value, rfl, rfl⟩, rfl, Fact.rewrite_update written rule f.id, id⟩
  | redistribute params =>
      cases h
      exact ⟨f, ⟨rfl, rfl, rfl, rfl, rfl⟩, rfl, rfl, rfl⟩
  | alert message =>
      cases h
      exact ⟨f, ⟨rfl, rfl, rfl, rfl, rfl⟩, rfl, rfl, rfl⟩
  | notify recipient template =>
      unfold Action.prepare at h
      dsimp only at h
      split at h
      · cases h
      · rename_i r found
        cases h
        exact ⟨f, ⟨rfl, rfl, rfl, r, _, found, rfl, rfl⟩, rfl, rfl, rfl⟩

/-! ## A series of actions -/

variable {timeout : Nat} {rule : String} {report : Report} {tr : Trace}

/-- **What the first action of a series can do.** It fails, and the sink keeps nothing of it; or it is applied, and
    the sink keeps its record; or the sink crashes. -/
theorem performAll_cons_cases {a : Action} {rest : List Action} {result : Except Crash Report}
    (h : (performAll timeout rule (a :: rest) report).Traces tr result) :
    (∃ e head tail, tr = head ++ tail ∧ head.accepted = [] ∧ head.Obeys noCrash ∧
      (performAll timeout rule rest (report.fail a.kind e)).Traces tail result) ∨
    (∃ offer tail, a.prepare rule report.fact = .ok offer ∧ tr = (offer.emission, .accept) :: tail ∧
      (performAll timeout rule rest (report.apply offer)).Traces tail result) ∨
    (∃ r reason, tr = [(r, .crash reason)] ∧ result = .error ⟨reason⟩) := by
  rw [performAll] at h
  cases prepared : a.prepare rule report.fact with
  | error e =>
      rw [prepared] at h
      exact .inl ⟨e, [], tr, rfl, rfl, nofun, h⟩
  | ok offer =>
      rw [prepared] at h
      obtain ⟨v, tail, rfl, next⟩ := Task.traces_emit_iff.mp h
      have silent : ∀ v : Verdict, v.isCrash = false → Trace.Obeys noCrash [(offer.emission, v)] :=
        fun v tame => List.forall_mem_singleton.mpr tame
      cases v with
      | accept => exact .inr (.inl ⟨offer, tail, rfl, rfl, next⟩)
      | refuse reason => exact .inl ⟨.refused reason, [_], tail, rfl, rfl, silent _ rfl, next⟩
      | hang => exact .inl ⟨.timedOut timeout, [_], tail, rfl, rfl, silent _ rfl, next⟩
      | crash reason =>
          obtain ⟨rfl, rfl⟩ := Task.traces_done_iff.mp next
          exact .inr (.inr ⟨offer.emission, reason, rfl, rfl⟩)

/-- **A series that comes to its end** met no crash. It adds the account of its actions to the report, and the
    records that were kept tell of the writes that lead to its fact. -/
theorem performAll_ok {as : List Action} {after : Report} {f : Fact} (fact : report.fact = some f)
    (h : (performAll timeout rule as report).Traces tr (.ok after)) :
    tr.Obeys noCrash ∧ ∃ xs es g, Account rule f.id as xs es tr.accepted ∧
      after.applied = report.applied ++ xs ∧ after.failed = report.failed ++ es ∧
      after.fact = some g ∧ replay f tr.accepted = some g := by
  induction as generalizing report tr f with
  | nil =>
      obtain ⟨rfl, same⟩ := Task.traces_done_iff.mp h
      cases same
      exact ⟨nofun, [], [], f, .nil, by simp, by simp, fact, rfl⟩
  | cons a rest ih =>
      rcases performAll_cons_cases h with ⟨e, head, tail, rfl, nothing, tame, next⟩ |
        ⟨offer, tail, prepared, rfl, next⟩ | ⟨r, reason, rfl, broken⟩
      · have same : (report.fail a.kind e).fact = some f := fact
        obtain ⟨tame', xs, es, g, account, applied, failed, last, again⟩ := ih same next
        refine ⟨List.forall_mem_append.mpr ⟨tame, tame'⟩, xs, (a.kind, e) :: es, g, ?_, applied, ?_, last, ?_⟩
        · rw [Trace.accepted_append, nothing, List.nil_append]
          exact .failed e account
        · rw [failed, Report.fail, List.append_assoc, List.singleton_append]
        · rw [Trace.accepted_append, nothing, List.nil_append]
          exact again
      · rw [fact] at prepared
        obtain ⟨g, leaves, staged, written, id⟩ := Action.prepare_spec prepared
        have taken : (report.apply offer).fact = some g := staged
        obtain ⟨tame, xs, es, g', account, applied, failed, last, again⟩ := ih taken next
        refine ⟨List.forall_mem_cons.mpr ⟨rfl, tame⟩, offer.result :: xs, es, g', ?_, ?_, failed, last, ?_⟩
        · rw [Trace.accepted_cons_accept]
          rw [id] at account
          exact .applied leaves account
        · rw [applied, Report.apply, List.append_assoc, List.singleton_append]
        · rw [Trace.accepted_cons_accept, replay_cons written]
          exact again
      · cases broken

/-- **A series that is broken off** met a crash. -/
theorem performAll_error {as : List Action} {c : Crash}
    (h : (performAll timeout rule as report).Traces tr (.error c)) : ¬ tr.Obeys noCrash := by
  induction as generalizing report tr with
  | nil =>
      obtain ⟨-, same⟩ := Task.traces_done_iff.mp h
      cases same
  | cons a rest ih =>
      rcases performAll_cons_cases h with ⟨e, head, tail, rfl, -, -, next⟩ | ⟨offer, tail, -, rfl, next⟩ |
        ⟨r, reason, rfl, -⟩
      · exact fun tame => ih next (List.forall_mem_append.mp tame).2
      · exact fun tame => ih next (List.forall_mem_cons.mp tame).2
      · exact fun tame => nomatch tame _ List.mem_cons_self

/-! ## All actions of a rule -/

/-- **The report, the sink and the fact tell one story.** On a sink that never crashes, the actions of a rule on a fact
    come to an end. The report gives account of every action of the rule and of every record that the sink accepted
    meanwhile, each of them with the identity that the fact had at first; the writes of these records, made again on the
    fact, lead to the fact of the report; and the report says that the fact was updated exactly where there is the
    record of an update. -/
theorem perform_tells_one_story (timeout : Nat) (r : CompiledRule) (f : Fact) {sink : Sink}
    (calm : sink.NeverCrashes) (log : Log) :
    ∃ report g stored, ((r.perform timeout (some f)).run sink log).1 = .ok report ∧
      ((r.perform timeout (some f)).run sink log).2.accepted = log.accepted ++ stored ∧
      Account r.name f.id r.actions report.applied report.failed stored ∧
      report.fact = some g ∧ replay f stored = some g ∧
      (report.updated = true ↔ ∃ s ∈ stored, s.kind = .update) := by
  obtain ⟨tr, traces, tame, after⟩ := Task.traces_run calm (r.perform timeout (some f)) log
  rw [after]
  cases result : ((r.perform timeout (some f)).run sink log).1 with
  | error c =>
      rw [result] at traces
      exact absurd tame (performAll_error traces)
  | ok report =>
      rw [result] at traces
      obtain ⟨-, xs, es, g, account, applied, failed, last, again⟩ := performAll_ok rfl traces
      rw [List.nil_append] at applied failed
      subst applied failed
      refine ⟨report, g, tr.accepted, rfl, rfl, account, last, again, ?_⟩
      rw [← account.update_applied_iff]
      simp [Report.updated]

/-- A rule that overwrites the identity of its fact, on a sink that leaves its second record without an answer. -/
theorem perform_tells_one_story_overwritten_id :
    let seven : Value := .number (.int 7 (by decide))
    let d : RuleDefinition := ⟨"a", ⟨.all, [.test (.literal "id" "==" seven)]⟩,
      [.update "id" "id + 1", .alert "seen", .notify none "lost", .alert "over"]⟩
    let f : Fact := ⟨0, some "7", [("id", seven)]⟩
    let sink : Sink := ⟨fun before _ => if before.length = 1 then .hang else .accept⟩
    sink.NeverCrashes ∧ ∃ r, d.compile = .ok r ∧ r.applies f = true ∧
      ∃ report g stored, ((r.perform 5000 (some f)).run sink Log.empty).1 = .ok report ∧
        ((r.perform 5000 (some f)).run sink Log.empty).2.accepted = Log.empty.accepted ++ stored ∧
        Account r.name f.id r.actions report.applied report.failed stored ∧
        report.fact = some g ∧ replay f stored = some g ∧
        (report.updated = true ↔ ∃ s ∈ stored, s.kind = .update) := by
  have calm : Sink.NeverCrashes ⟨fun before _ => if before.length = 1 then .hang else .accept⟩ := by
    intro before r
    show (if before.length = 1 then Verdict.hang else Verdict.accept).isCrash = false
    split <;> rfl
  refine ⟨calm, _, rfl, ?_, perform_tells_one_story 5000 _ _ calm Log.empty⟩
  rfl

end Rulebook
