import Rulebook.Proofs.Registry

/-!
# `Rulebook.Proofs.Registration` — registries after any calls

Rules enter a registry one by one or in lists, and each of them is either registered or refused. A call that registers
a list makes one attempt after the other, so whatever calls there were, a registry has come about by a series of
attempts, and each attempt kept what was sound before it. The names that are taken stand beside the rules; that the two
never part is what makes look-up by name, the refusal of names that are taken and the places of outcomes right.

* `Call`, `Reached` — calls, and the registries that they lead to with the attempts on the way
* `Reached.sound`, `Reached.definitions` — what every call keeps, and which rules are there in which order
* `register_accepts_iff` — which rules a sound registry accepts
* `Orderly`, `reached_orderly` — what holds after any calls
-/

namespace Rulebook.Registry

/-! ## Calls -/

/-- A call that may change a registry: with one rule, or with a list of rules. -/
inductive Call where
  | one (d : RuleDefinition)
  | many (ds : List RuleDefinition)

/-- An attempt to register a rule, with the reason where it was refused. -/
abbrev Attempt := RuleDefinition × Option RuleError

/-- The registry after a call. -/
def call (g : Registry) : Call → Registry
  | .one d => (g.register d).1
  | .many ds => (g.registerAll ds).1

/-- The attempts that a call makes. -/
def attempted (g : Registry) : Call → List Attempt
  | .one d => [(d, (g.register d).2)]
  | .many ds => ds.zip (g.attempts ds)

/-- **Calls lead to a registry**, from the one without rules on. All attempts on the way are kept in their order,
    those that were refused as well. -/
inductive Reached : List Attempt → Registry → Prop where
  | start : Reached [] empty
  | call {history : List Attempt} {g : Registry} (before : Reached history g) (c : Call) :
      Reached (history ++ g.attempted c) (g.call c)

/-- The definitions that were registered by attempts, in the order of the attempts. -/
def registered (history : List Attempt) : List RuleDefinition := (history.filter fun a => a.2.isNone).map Prod.fst

theorem registered_append (history later : List Attempt) :
    registered (history ++ later) = registered history ++ registered later := by
  unfold registered
  rw [List.filter_append, List.map_append]

/-! ## What a call keeps -/

variable {g : Registry}

/-- A call keeps a registry sound. -/
theorem Sound.call (h : g.Sound) (c : Call) : (g.call c).Sound := by
  cases c with
  | one d => exact h.register d
  | many ds => exact h.registerAll ds

/-- A call adds the definitions that it registers after those that are there. -/
theorem definitions_call (g : Registry) (c : Call) :
    (g.call c).rules.map CompiledRule.definition =
      g.rules.map CompiledRule.definition ++ registered (g.attempted c) := by
  cases c with
  | one d =>
      -- One rule is registered like a list with nothing else in it.
      have single := g.registerAll_definitions [d]
      exact single
  | many ds => exact g.registerAll_definitions ds

/-- **Every registry that calls lead to is sound.** -/
theorem Reached.sound {history : List Attempt} (h : Reached history g) : g.Sound := by
  induction h with
  | start => exact sound_empty
  | call _ c ih => exact ih.call c

/-- **The rules are those that were registered, in the order of their registration.** -/
theorem Reached.definitions {history : List Attempt} (h : Reached history g) :
    g.rules.map CompiledRule.definition = registered history := by
  induction h with
  | start => rfl
  | call _ c ih => rw [definitions_call, ih, registered_append]

/-! ## Names -/

/-- A rule of a sound registry has a visible name, for it compiles. -/
theorem Sound.visible_name (h : g.Sound) {name : String} (mem : name ∈ g.names) : Text.Visible name.toList := by
  obtain ⟨r, hr, rfl⟩ := List.mem_map.mp mem
  have compiled : r.definition.compile = .ok r := h.recompiles r hr
  exact (RuleDefinition.compile_eq_ok_iff.mp compiled).1

/-- There is a rule with a name exactly where the name is one of a rule. -/
theorem find?_isSome_iff (g : Registry) (name : String) : (g.find? name).isSome = true ↔ name ∈ g.names := by
  unfold find? names
  rw [List.find?_isSome, List.mem_map]
  simp only [decide_eq_true_eq]

/-- A sound registry says that it has a name exactly where it finds a rule with it. -/
theorem Sound.contains_iff (h : g.Sound) (name : String) :
    g.contains name = true ↔ (g.find? name).isSome = true := by
  unfold contains
  rw [List.contains_iff_mem, h.mem_taken, find?_isSome_iff]

/-! ## One attempt -/

/-- A rule that is refused leaves no trace, neither a rule nor a name. -/
theorem register_of_refused {d : RuleDefinition} {e : RuleError} (refused : (g.register d).2 = some e) :
    (g.register d).1 = g := by
  rcases g.register_cases d with ⟨_, eq⟩ | ⟨_, e', _, eq⟩ | ⟨_, r, _, _, eq⟩
  · rw [eq]
  · rw [eq]
  · rw [eq] at refused
    cases refused

/-- **A sound registry accepts** the rules that compile and have a name of their own. -/
theorem register_accepts_iff (h : g.Sound) (d : RuleDefinition) :
    (g.register d).2 = none ↔ (∃ r, d.compile = .ok r) ∧ d.name ≠ fallbackName ∧ d.name ∉ g.names := by
  have free_iff : ¬ g.Refuses d.name ↔ d.name ≠ fallbackName ∧ d.name ∉ g.names := by
    rw [h.refuses_iff, not_or]
  rw [← free_iff]
  rcases g.register_cases d with ⟨refused, eq⟩ | ⟨_, e, compiled, eq⟩ | ⟨free, r, compiled, _, eq⟩
  · rw [eq]
    constructor
    · intro accepted
      cases accepted
    · rintro ⟨-, free⟩
      exact absurd refused free
  · rw [eq]
    constructor
    · intro accepted
      cases accepted
    · rintro ⟨⟨r, ok⟩, -⟩
      rw [compiled] at ok
      cases ok
  · rw [eq]
    exact iff_of_true rfl ⟨⟨r, compiled⟩, free⟩

/-! ## Any calls -/

/-- **What holds of a registry** after attempts to register rules. -/
structure Orderly (history : List Attempt) (g : Registry) : Prop where
  /-- No two rules have one name. -/
  distinct : g.names.Nodup
  /-- No rule has a blank name or that of the fallback. -/
  proper : ∀ name ∈ g.names, Text.Visible name.toList ∧ name ≠ fallbackName
  /-- The names that are taken are those of the rules. -/
  taken : ∀ name, name ∈ g.taken ↔ name ∈ g.names
  contains : ∀ name, g.contains name = true ↔ (g.find? name).isSome = true
  /-- There is a rule for each attempt that was not refused, in the order of the attempts. -/
  inOrder : List.Forall₂ (fun d r => d.compile = .ok r) (registered history) g.rules
  /-- A rule that is refused leaves rules and names as they were. -/
  refuses : ∀ d e, (g.register d).2 = some e → (g.register d).1 = g
  accepts : ∀ d, (g.register d).2 = none ↔
    (∃ r, d.compile = .ok r) ∧ d.name ≠ fallbackName ∧ ∀ r ∈ g.rules, r.name ≠ d.name

/-- **Registries are orderly**, whatever calls led to them and whatever was refused on the way. -/
theorem reached_orderly {history : List Attempt} {g : Registry} (h : Reached history g) : Orderly history g := by
  have sound : g.Sound := h.sound
  constructor
  case distinct => exact sound.nodup
  case proper =>
    intro name mem
    refine ⟨sound.visible_name mem, ?_⟩
    rintro rfl
    exact sound.noFallback mem
  case taken => exact sound.mem_taken
  case contains => exact sound.contains_iff
  case inOrder =>
    rw [← h.definitions, List.forall₂_map_left_iff, List.forall₂_same]
    exact sound.recompiles
  case refuses => exact fun d e refused => register_of_refused refused
  case accepts =>
    intro d
    rw [register_accepts_iff sound]
    have fresh : d.name ∉ g.names ↔ ∀ r ∈ g.rules, r.name ≠ d.name := by
      simp [names]
    rw [fresh]

/-- One rule is registered, then a list in which its name comes again, a name is blank, an operator is not known and the
    rule that would have it comes later with one that is. -/
theorem reached_orderly_second_list :
    let rule (name operator : String) : RuleDefinition := ⟨name, ⟨.all, [.test (.literal "x" operator .null)]⟩, []⟩
    let calls : List Call := [.one (rule "a" "=="), .many [rule "a" "!=", rule " " "==", rule "b" "~", rule "b" "<"]]
    ∃ history, Reached history (calls.foldl call empty) ∧ registered history = [rule "a" "==", rule "b" "<"] ∧
      history.length = 5 ∧ Orderly history (calls.foldl call empty) := by
  intro rule calls
  have ran : ∃ history, Reached history (calls.foldl call empty) ∧
      registered history = [rule "a" "==", rule "b" "<"] ∧ history.length = 5 := by
    subst calls rule
    exact ⟨_, (Reached.start.call (.one _)).call (.many _), rfl, rfl⟩
  obtain ⟨history, reached, accepted, all⟩ := ran
  exact ⟨history, reached, accepted, all, reached_orderly reached⟩

end Rulebook.Registry
