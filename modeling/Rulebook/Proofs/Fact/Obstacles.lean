import Rulebook.Proofs.Fact

/-!
# `Rulebook.Proofs.Fact.Obstacles` — writes that fail

A write makes objects on its way before it knows whether it will reach the end. That does no harm: below an object that
it made there is nothing, so nothing can be in its way, and an obstacle is met only where everything before it was
there already. What is in the way can be read off the fact before the write: it is the value, no object itself, to
which some first part of the path leads through objects.

* `Value.within?` — the value at the end of a way through objects only
* `Fields.Stops` — what is in the way of a write, and where
* `Fields.put_obstacle_iff` — a write fails exactly where something is in its way, and says what
* `Fields.put_refused` — a write that fails leaves the fields as they were
* `Fact.set_fails_iff` — **a write at a path fails exactly where something is in its way, and then it changes nothing**
-/

namespace Rulebook

/-- The value at the end of a way of names, through objects only. -/
def Value.within? (names : List String) (v : Value) : Option Value := names.foldlM (fun u name => u.field? name) v

theorem Value.within?_cons (name : String) (names : List String) (v : Value) :
    v.within? (name :: names) = (v.field? name).bind fun u => u.within? names := List.foldlM_cons

theorem Value.within?_single (name : String) (v : Value) : v.within? [name] = v.field? name := by
  rw [within?_cons]
  exact Option.bind_fun_some _

namespace Fields

/-- `names` lead through the objects of `fields` to a value `u` that is none, before the end of the way. -/
structure Stops (fields : Fields) (way names : List String) (u : Value) : Prop where
  nonempty : names ≠ []
  onWay : names <+: way
  proper : names ≠ way
  reaches : (Value.object fields).within? names = some u
  solid : ∀ inner, u ≠ .object inner

variable {first : String} {fields : Fields}

/-! ## What is in the way -/

/-- Nothing is in the way to a field of its own. -/
theorem not_stops_single (names : List String) (u : Value) : ¬ fields.Stops [first] names u := by
  intro stops
  rcases List.prefix_cons_iff.mp stops.onWay with none | ⟨rest, whole, onWay⟩
  · exact stops.nonempty none
  · rw [List.prefix_nil.mp onWay] at whole
    exact stops.proper whole

/-- What is in the way below an object is in the way inside it. -/
theorem stops_through_iff {inner : Fields} (into : (get? first fields).getD (.object []) = .object inner)
    (way names : List String) (u : Value) :
    fields.Stops (first :: way) names u ↔ ∃ rest, names = first :: rest ∧ inner.Stops way rest u := by
  -- Where there is nothing yet, nothing is reached either, as in an object without fields.
  have below : ∀ name rest, (Value.object fields).within? (first :: name :: rest) =
      (Value.object inner).within? (name :: rest) := by
    intro name rest
    rw [Value.within?_cons, Value.field?]
    cases found : get? first fields with
    | none =>
        rw [found] at into
        cases into
        rfl
    | some v =>
        rw [found] at into
        cases into
        rfl
  constructor
  · intro stops
    rcases List.prefix_cons_iff.mp stops.onWay with none | ⟨rest, rfl, onWay⟩
    · exact absurd none stops.nonempty
    · cases rest with
      | nil =>
          -- The first name leads to an object, or to nothing.
          have reached : get? first fields = some u := (Value.within?_single first _).symm.trans stops.reaches
          rw [reached] at into
          exact absurd into (stops.solid inner)
      | cons name rest =>
          refine ⟨name :: rest, rfl, List.cons_ne_nil _ _, onWay, ?_, ?_, stops.solid⟩
          · intro whole
            exact stops.proper (whole ▸ rfl)
          · exact (below name rest).symm.trans stops.reaches
  · rintro ⟨rest, rfl, stops⟩
    cases rest with
    | nil => exact absurd rfl stops.nonempty
    | cons name rest =>
        refine ⟨List.cons_ne_nil _ _, List.cons_prefix_cons.mpr ⟨rfl, stops.onWay⟩, ?_, ?_, stops.solid⟩
        · intro whole
          exact stops.proper (List.cons.inj whole).2
        · exact (below name rest).trans stops.reaches

/-- A value that is no object is in the way of all that leads on from it, and nothing else is. -/
theorem stops_at_iff {v : Value} (found : get? first fields = some v) (solid : ∀ inner, v ≠ .object inner)
    (next : String) (rest names : List String) (u : Value) :
    fields.Stops (first :: next :: rest) names u ↔ names = [first] ∧ u = v := by
  constructor
  · intro stops
    rcases List.prefix_cons_iff.mp stops.onWay with none | ⟨names, rfl, -⟩
    · exact absurd none stops.nonempty
    · have reaches := stops.reaches
      rw [Value.within?_cons, Value.field?, found, Option.bind_some] at reaches
      cases names with
      | nil => exact ⟨rfl, (Option.some.inj reaches).symm⟩
      | cons name names =>
          cases v with
          | object inner => exact absurd rfl (solid inner)
          | _ => cases reaches
  · rintro ⟨rfl, rfl⟩
    refine ⟨List.cons_ne_nil _ _, List.cons_prefix_cons.mpr ⟨rfl, List.nil_prefix⟩, ?_, ?_, solid⟩
    · intro whole
      cases whole
    · exact (Value.within?_single first _).trans found

/-! ## Writes that fail -/

/-- **What stops a write** is the value in its way, by the last name on the way to it and what it is. -/
theorem put_obstacle_iff (value : Value) (rest : List String) (o : Obstacle) :
    (put value first rest fields).2 = some o ↔
      ∃ names u, fields.Stops (first :: rest) names u ∧ names.getLast? = some o.segment ∧ u.kindName = o.kind := by
  induction rest generalizing first fields with
  | nil =>
      refine iff_of_false nofun ?_
      rintro ⟨names, u, stops, -⟩
      exact not_stops_single names u stops
  | cons next rest ih =>
      rcases entry_cases first fields with ⟨inner, into⟩ | ⟨v, found, solid⟩
      · rw [put_through into, ih]
        constructor
        · rintro ⟨names, u, stops, last, kind⟩
          refine ⟨first :: names, u, (stops_through_iff into _ _ u).mpr ⟨names, rfl, stops⟩, ?_, kind⟩
          rw [List.getLast?_cons, last]
          rfl
        · rintro ⟨names, u, stops, last, kind⟩
          obtain ⟨names, rfl, inside⟩ := (stops_through_iff into _ _ u).mp stops
          refine ⟨names, u, inside, ?_, kind⟩
          cases names with
          | nil => exact absurd rfl inside.nonempty
          | cons name names => rwa [List.getLast?_cons_cons] at last
      · rw [put_stopped found solid]
        constructor
        · intro same
          cases same
          exact ⟨[first], v, (stops_at_iff found solid next rest _ _).mpr ⟨rfl, rfl⟩, rfl, rfl⟩
        · rintro ⟨names, u, stops, last, kind⟩
          obtain ⟨rfl, rfl⟩ := (stops_at_iff found solid next rest _ _).mp stops
          cases last
          rw [kind]

/-- Nothing stops a write into an object without fields. -/
theorem put_nil (value : Value) (first : String) (rest : List String) : (put value first rest []).2 = none := by
  induction rest generalizing first with
  | nil => rfl
  | cons next rest ih =>
      rw [put_through rfl]
      exact ih next

/-- **A write that fails leaves the fields as they were.** -/
theorem put_refused {value : Value} {rest : List String} {after : Fields} {o : Obstacle}
    (h : put value first rest fields = (after, some o)) : after = fields := by
  induction rest generalizing first fields after with
  | nil => cases h
  | cons next rest ih =>
      rcases entry_cases first fields with ⟨inner, into⟩ | ⟨v, found, solid⟩
      · rw [put_through into] at h
        obtain ⟨rfl, refused⟩ := Prod.mk.inj h
        have inside : (put value next rest inner).1 = inner := ih (Prod.ext rfl refused)
        rw [inside]
        cases found : get? first fields with
        | none =>
            -- The object would be new, and nothing could be in the way inside it.
            rw [found] at into
            cases into
            cases (put_nil value next rest).symm.trans refused
        | some v =>
            rw [found] at into
            cases into
            exact insert_get? found
      · rw [put_stopped found solid] at h
        exact (Prod.mk.inj h).1.symm

end Fields

/-! ## Facts -/

namespace Fact

/-- What stops a write at a path, as the error tells it. -/
theorem set_obstacle_iff (f : Fact) (p : Path) (v : Value) (o : Obstacle) :
    (f.set p v).2 = some o ↔
      ∃ names u, f.fields.Stops p.segments names u ∧ names.getLast? = some o.segment ∧ u.kindName = o.kind :=
  Fields.put_obstacle_iff v (p.rest.map Segment.text) o

/-- **A write at a path fails exactly where something is in its way, and then it changes nothing.** What is in the way is
    a value, no object, to which the names of a proper part of the path lead through objects. After a write that fails
    the fact is the one before it: its fields, its identity and its place. -/
theorem set_fails_iff (f : Fact) (p : Path) (v : Value) :
    ((∃ o, (f.set p v).2 = some o) ↔
      ∃ names, names ≠ [] ∧ names <+: p.segments ∧ names ≠ p.segments ∧
        ∃ u, f.value.within? names = some u ∧ ∀ inner, u ≠ .object inner) ∧
    ∀ g o, f.set p v = (g, some o) → g = f := by
  refine ⟨⟨?_, ?_⟩, ?_⟩
  · rintro ⟨o, refused⟩
    obtain ⟨names, u, stops, -⟩ := (set_obstacle_iff f p v o).mp refused
    exact ⟨names, stops.nonempty, stops.onWay, stops.proper, u, stops.reaches, stops.solid⟩
  · rintro ⟨names, nonempty, onWay, proper, u, reaches, solid⟩
    refine ⟨⟨names.getLast nonempty, u.kindName⟩, (set_obstacle_iff f p v _).mpr ?_⟩
    exact ⟨names, u, ⟨nonempty, onWay, proper, reaches, solid⟩, List.getLast?_eq_some_getLast nonempty, rfl⟩
  · intro g o refused
    obtain ⟨rfl, stopped⟩ := Prod.mk.inj refused
    have same : (f.fields.put v p.first.text (p.rest.map Segment.text)).1 = f.fields :=
      Fields.put_refused (Prod.ext rfl stopped)
    rw [same]

/-- A list is in the way of a write to its first item, although the path leads to that item. -/
theorem set_fails_iff_item :
    let f : Fact := ⟨3, some "7", [("bids", .object [("open", .array [.bool true])])]⟩
    let p : Path := ⟨⟨"bids", by decide⟩, [⟨"open", by decide⟩, ⟨"0", by decide⟩]⟩
    ∃ g, f.get p = some (.bool true) ∧ f.set p .null = (g, some ⟨"open", "array"⟩) ∧ g = f ∧
      ∃ names, names ≠ [] ∧ names <+: p.segments ∧ names ≠ p.segments ∧
        ∃ u, f.value.within? names = some u ∧ ∀ inner, u ≠ .object inner := by
  intro f p
  have refused : f.set p .null = ((f.set p .null).1, some ⟨"open", "array"⟩) := rfl
  obtain ⟨fails, unchanged⟩ := set_fails_iff f p .null
  exact ⟨_, rfl, refused, unchanged _ _ refused, fails.mp ⟨_, rfl⟩⟩

end Fact

end Rulebook
