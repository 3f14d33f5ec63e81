import Mathlib.Data.List.Nodup
import Rulebook.Proofs.Rule.WellFormed
import Rulebook.Registry

/-!
# `Rulebook.Proofs.Registry` — what holds of every registry

`register_cases` says once what an attempt to register a rule can lead to: the name is taken, the rule does not
compile, or the rule is there. Everything that holds of all registries follows from it by a look at these three
cases.

* `Registry.Sound` — names are distinct, none of them is that of the fallback, the names that are taken are
  those of the rules, and every rule is what its definition compiles to;
* `sound_registerAll` — registration keeps that, whatever is refused on the way;
* `Sound.find?_name`, `Sound.length_declaredActions` — a rule is found by its name, with the actions that it declares;
* `length_registerAll` — of a list of definitions none is lost: each is registered or refused;
* `attempts`, `mem_taken_registerAll` — the answer for each rule of a list, and the names that are then taken.
-/

namespace Rulebook

/-- A rule keeps the definition that it was compiled from. -/
theorem RuleDefinition.definition_of_compile {d : RuleDefinition} {r : CompiledRule} (h : d.compile = .ok r) :
    r.definition = d := (compile_eq_ok_iff.mp h).2.1

/-- A rule has an action for each one that its definition declares. -/
theorem RuleDefinition.length_actions_of_compile {d : RuleDefinition} {r : CompiledRule} (h : d.compile = .ok r) :
    r.actions.length = d.actions.length := by
  obtain ⟨-, -, -, actions⟩ := compile_eq_ok_iff.mp h
  exact actions.length_eq.symm

/-- Whether a rule compiles. -/
def RuleDefinition.compiles (d : RuleDefinition) : Bool := d.compile.isOk

namespace Registry

/-! ## One rule -/

/-- A name that a rule cannot be registered under: that of the fallback, or one that is taken. -/
def Refuses (g : Registry) (name : String) : Prop := name = fallbackName ∨ name ∈ g.taken

theorem refuses_iff {g : Registry} {name : String} :
    g.Refuses name ↔ name = fallbackName ∨ g.contains name = true := by
  simp [Refuses, contains]

/-- **What an attempt to register a rule leads to.** -/
theorem register_cases (g : Registry) (d : RuleDefinition) :
    (g.Refuses d.name ∧ g.register d = (g, some (.duplicateName d.name))) ∨
    (¬ g.Refuses d.name ∧ ∃ e, d.compile = .error e ∧ g.register d = (g, some e)) ∨
    (¬ g.Refuses d.name ∧ ∃ r, d.compile = .ok r ∧ r.definition = d ∧
      g.register d = (⟨g.rules ++ [r], r.name :: g.taken⟩, none)) := by
  by_cases refused : g.Refuses d.name
  · exact .inl ⟨refused, by rw [register, if_pos (refuses_iff.mp refused)]⟩
  · have free : ¬(d.name = fallbackName ∨ g.contains d.name = true) := fun h => refused (refuses_iff.mpr h)
    cases compiled : d.compile with
    | error e => exact .inr (.inl ⟨refused, e, rfl, by rw [register, if_neg free, compiled]⟩)
    | ok r =>
        exact .inr (.inr ⟨refused, r, rfl, RuleDefinition.definition_of_compile compiled,
          by rw [register, if_neg free, compiled]⟩)

/-! ## Soundness -/

/-- **What holds of every registry** that registration leads to. -/
structure Sound (g : Registry) : Prop where
  recompiles : ∀ r ∈ g.rules, r.definition.compile = .ok r
  nodup : g.names.Nodup
  noFallback : fallbackName ∉ g.names
  mem_taken : ∀ name, name ∈ g.taken ↔ name ∈ g.names

theorem sound_empty : Sound empty where
  recompiles := by simp [empty]
  nodup := by simp [names, empty]
  noFallback := by simp [names, empty]
  mem_taken := by simp [names, empty]

/-- A name is refused by a sound registry when it is that of the fallback or of a rule. -/
theorem Sound.refuses_iff {g : Registry} (h : g.Sound) {name : String} :
    g.Refuses name ↔ name = fallbackName ∨ name ∈ g.names := by
  rw [Refuses, h.mem_taken]

/-- An attempt to register a rule keeps a registry sound. -/
theorem Sound.register {g : Registry} (h : g.Sound) (d : RuleDefinition) : (g.register d).1.Sound := by
  rcases g.register_cases d with ⟨_, eq⟩ | ⟨_, e, _, eq⟩ | ⟨free, r, compiled, definition, eq⟩
  · rw [eq]; exact h
  · rw [eq]; exact h
  · have name : r.name = d.name := by rw [CompiledRule.name, definition]
    rw [h.refuses_iff, ← name] at free
    rw [eq]
    refine ⟨?_, ?_, ?_, ?_⟩
    · intro r' hr'
      rcases List.mem_append.mp hr' with hr' | hr'
      · exact h.recompiles r' hr'
      · rw [List.mem_singleton.mp hr', definition]; exact compiled
    · -- The name was not refused, so no rule has it yet.
      have fresh : r.name ∉ g.names := fun hn => free (.inr hn)
      simpa [names, List.nodup_append] using ⟨h.nodup, fun r' hr' eq => fresh (eq ▸ List.mem_map_of_mem hr')⟩
    · have other : fallbackName ≠ r.name := fun hn => free (.inl hn.symm)
      simpa [names, other] using h.noFallback
    · intro n
      rw [List.mem_cons, h.mem_taken, or_comm]
      simp [names]

/-- A rule of a sound registry is found by its name. -/
theorem Sound.find?_name {g : Registry} (h : g.Sound) {r : CompiledRule} (hr : r ∈ g.rules) :
    g.find? r.name = some r := by
  unfold find?
  cases found : g.rules.find? fun r' => r'.name = r.name with
  | none => exact absurd (List.find?_eq_none.mp found r hr) (by simp)
  | some r' =>
      have name : r'.name = r.name := by simpa using List.find?_some found
      rw [List.inj_on_of_nodup_map h.nodup (List.mem_of_find?_eq_some found) hr name]

/-- The actions that the rule of a name declares. -/
def declaredActions (g : Registry) (name : String) : List ActionSpec :=
  match g.find? name with
  | some r => r.definition.actions
  | none => []

theorem Sound.length_declaredActions {g : Registry} (h : g.Sound) {r : CompiledRule} (hr : r ∈ g.rules) :
    (g.declaredActions r.name).length = r.actions.length := by
  rw [declaredActions, h.find?_name hr]
  exact (RuleDefinition.length_actions_of_compile (h.recompiles r hr)).symm

/-! ## Lists of rules -/

theorem Sound.registerAll {g : Registry} (h : g.Sound) (ds : List RuleDefinition) :
    (g.registerAll ds).1.Sound := by
  induction ds generalizing g with
  | nil => exact h
  | cons d ds ih => exact ih (h.register d)

/-- **Every registry that registration leads to is sound**, whatever was refused on the way. -/
theorem sound_registerAll (ds : List RuleDefinition) : (empty.registerAll ds).1.Sound :=
  sound_empty.registerAll ds

/-- An attempt to register a rule adds the rule or gives an error, and never both. -/
theorem length_register (g : Registry) (d : RuleDefinition) :
    (g.register d).1.rules.length + (g.register d).2.toList.length = g.rules.length + 1 := by
  rcases g.register_cases d with ⟨_, eq⟩ | ⟨_, e, _, eq⟩ | ⟨_, r, _, _, eq⟩
  · rw [eq]
    rfl
  · rw [eq]
    rfl
  · rw [eq]
    exact List.length_append

/-- So of a list of rules each one is registered or refused. -/
theorem length_registerAll (g : Registry) (ds : List RuleDefinition) :
    (g.registerAll ds).1.rules.length + (g.registerAll ds).2.length = g.rules.length + ds.length := by
  induction ds generalizing g with
  | nil => rfl
  | cons d ds ih =>
      have first := g.length_register d
      have others := ih (g.register d).1
      have named : ((g.register d).2.map fun e => (d.name, e)).toList.length = (g.register d).2.toList.length := by
        cases (g.register d).2 <;> rfl
      show ((g.register d).1.registerAll ds).1.rules.length +
        (((g.register d).2.map fun e => (d.name, e)).toList ++ ((g.register d).1.registerAll ds).2).length = _
      rw [List.length_append, List.length_cons, named]
      omega

/-! ## One answer for each rule -/

/-- What the attempts to register rules one after the other give: for each rule why it is refused, or none where
    it is registered. -/
def attempts : Registry → List RuleDefinition → List (Option RuleError)
  | _, [] => []
  | g, d :: rest => (g.register d).2 :: attempts (g.register d).1 rest

/-- The errors of a registration are the refusals among the attempts, each with the name of its rule. -/
theorem registerAll_errors (g : Registry) (ds : List RuleDefinition) :
    (g.registerAll ds).2 = (ds.zip (g.attempts ds)).flatMap fun a => (a.2.map fun e => (a.1.name, e)).toList := by
  induction ds generalizing g with
  | nil => rfl
  | cons d ds ih =>
      rw [attempts, List.zip_cons_cons, List.flatMap_cons, ← ih]
      rfl

/-- The rules of a registration are those whose attempts were not refused. -/
theorem registerAll_definitions (g : Registry) (ds : List RuleDefinition) :
    (g.registerAll ds).1.rules.map CompiledRule.definition =
      g.rules.map CompiledRule.definition ++
        ((ds.zip (g.attempts ds)).filter fun a => a.2.isNone).map Prod.fst := by
  induction ds generalizing g with
  | nil => simp [registerAll, attempts]
  | cons d ds ih =>
      rw [attempts, List.zip_cons_cons]
      show ((g.register d).1.registerAll ds).1.rules.map CompiledRule.definition = _
      rw [ih]
      rcases g.register_cases d with ⟨_, eq⟩ | ⟨_, e, _, eq⟩ | ⟨_, r, _, definition, eq⟩
      · simp [eq]
      · simp [eq]
      · simp [eq, definition]

theorem length_attempts (g : Registry) (ds : List RuleDefinition) : (g.attempts ds).length = ds.length := by
  induction ds generalizing g with
  | nil => rfl
  | cons d ds ih => rw [attempts, List.length_cons, List.length_cons, ih]

/-- A registration has no errors exactly where every rule is registered. -/
theorem registerAll_errors_nil_iff (g : Registry) (ds : List RuleDefinition) :
    (g.registerAll ds).2 = [] ↔
      (g.registerAll ds).1.rules.map CompiledRule.definition = g.rules.map CompiledRule.definition ++ ds := by
  have whole : (ds.zip (g.attempts ds)).map Prod.fst = ds :=
    List.map_fst_zip (Nat.le_of_eq (g.length_attempts ds).symm)
  rw [registerAll_errors, registerAll_definitions, List.append_cancel_left_eq, List.flatMap_eq_nil_iff]
  constructor
  · intro none
    have all : (ds.zip (g.attempts ds)).filter (fun a => a.2.isNone) = ds.zip (g.attempts ds) := by
      refine List.filter_eq_self.mpr fun a ha => ?_
      simpa using none a ha
    rw [all, whole]
  · intro registered a ha
    -- Nothing is missing, so no attempt was filtered out.
    have all : ((ds.zip (g.attempts ds)).filter fun a => a.2.isNone).length = (ds.zip (g.attempts ds)).length := by
      have lengths := congrArg List.length registered
      rwa [List.length_map, ← congrArg List.length whole, List.length_map] at lengths
    simpa using List.length_filter_eq_length_iff.mp all a ha

/-- An attempt is made on the registry that the rules before it have led to. -/
theorem getElem?_attempts (g : Registry) (ds : List RuleDefinition) (i : Nat) :
    (g.attempts ds)[i]? = ds[i]?.map fun d => ((g.registerAll (ds.take i)).1.register d).2 := by
  induction ds generalizing g i with
  | nil => simp [attempts]
  | cons d ds ih =>
      cases i with
      | zero => rfl
      | succ i => exact ih (g.register d).1 i

/-- An attempt takes the name of a rule that compiles, unless it is that of the fallback. -/
theorem mem_taken_register (g : Registry) (d : RuleDefinition) (name : String) :
    name ∈ (g.register d).1.taken ↔ name ∈ g.taken ∨ name ≠ fallbackName ∧ d.name = name ∧ d.compiles := by
  rcases g.register_cases d with ⟨refused, eq⟩ | ⟨_, e, compiled, eq⟩ | ⟨free, r, compiled, definition, eq⟩
  · rw [eq]
    constructor
    · exact .inl
    · -- The name of a rule that is refused was taken before.
      rintro (h | ⟨other, rfl, -⟩)
      · exact h
      · exact refused.resolve_left other
  · have fails : ¬ d.compiles := by simp [RuleDefinition.compiles, compiled, Except.isOk, Except.toBool]
    rw [eq]
    constructor
    · exact .inl
    · rintro (h | ⟨-, -, ok⟩)
      · exact h
      · exact absurd ok fails
  · have ok : d.compiles := by simp [RuleDefinition.compiles, compiled, Except.isOk, Except.toBool]
    have other : d.name ≠ fallbackName := fun h => free (.inl h)
    have named : r.name = d.name := by rw [CompiledRule.name, definition]
    rw [eq]
    simp only [List.mem_cons, named]
    constructor
    · rintro (rfl | h)
      · exact .inr ⟨other, rfl, ok⟩
      · exact .inl h
    · rintro (h | ⟨-, rfl, -⟩)
      · exact .inr h
      · exact .inl rfl

/-- A name is taken by the first rule of that name that compiles, and that of the fallback by none. -/
theorem mem_taken_registerAll (g : Registry) (ds : List RuleDefinition) (name : String) :
    name ∈ (g.registerAll ds).1.taken ↔
      name ∈ g.taken ∨ name ≠ fallbackName ∧ ∃ d ∈ ds, d.name = name ∧ d.compiles := by
  induction ds generalizing g with
  | nil => simp [registerAll]
  | cons d ds ih =>
      show name ∈ ((g.register d).1.registerAll ds).1.taken ↔ _
      rw [ih, mem_taken_register, or_assoc, ← and_or_left]
      simp only [List.mem_cons, exists_eq_or_imp]

end Registry

end Rulebook
