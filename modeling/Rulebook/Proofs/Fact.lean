import Rulebook.Fact

/-!
# `Rulebook.Proofs.Fact` — reading after writing

A write at a path goes down through objects, makes those that are missing and sets the last name. What it does at one
name of the way is said once, in `put_cases`; by induction on the way, the value that was written is found at the path,
and a way that parts from the path somewhere leads to what it led to before, through objects, lists or nothing at all.

* `Fields.at?` — the value at the end of a way of names
* `Fields.put_through`, `Fields.put_stopped`, `Fields.put_cases` — what a write does at the first name of its way
* `Path.Apart` — paths of which neither leads on from the other
* `Fact.get_set_self`, `Fact.get_set_apart` — a write is found at its path, and nowhere apart from it
-/

namespace Rulebook

/-! ## Ways of names -/

namespace Fields

/-- The value at the end of a way that starts at a field. -/
def at? (first : String) (rest : List String) (fields : Fields) : Option Value :=
  (get? first fields).bind fun v => rest.foldlM Path.child? v

theorem at?_insert_self (first : String) (rest : List String) (v : Value) (fields : Fields) :
    at? first rest (insert first v fields) = rest.foldlM Path.child? v := by
  rw [at?, get?_insert_self, Option.bind_some]

theorem at?_insert_of_ne {first other : String} (h : other ≠ first) (rest : List String) (v : Value)
    (fields : Fields) : at? other rest (insert first v fields) = at? other rest fields := by
  rw [at?, at?, get?_insert_of_ne h]

/-- A way through an object goes on in its fields. -/
theorem foldlM_child?_object (next : String) (rest : List String) (inner : Fields) :
    (next :: rest).foldlM Path.child? (.object inner) = at? next rest inner := by
  rw [List.foldlM_cons]
  rfl

/-- A way of two names or more goes through the object at the first one, if there is one or nothing at all. -/
theorem at?_of_getD {first : String} {fields inner : Fields}
    (h : (get? first fields).getD (.object []) = .object inner) (next : String) (rest : List String) :
    at? first (next :: rest) fields = at? next rest inner := by
  cases found : get? first fields with
  | none =>
      -- Where there is nothing, the object to go through is one without fields.
      rw [found] at h
      cases h
      rw [at?, found]
      rfl
  | some v =>
      rw [found] at h
      cases h
      rw [at?, found, Option.bind_some, foldlM_child?_object]

/-! ## Writes -/

/-- A way of two names or more leads into an object, an old or a new one, or it meets a value that is none. -/
theorem entry_cases (first : String) (fields : Fields) :
    (∃ inner, (get? first fields).getD (.object []) = .object inner) ∨
      ∃ u, get? first fields = some u ∧ ∀ inner, u ≠ .object inner := by
  cases found : get? first fields with
  | none => exact .inl ⟨[], rfl⟩
  | some u =>
      cases u with
      | object inner => exact .inl ⟨inner, rfl⟩
      | _ => exact .inr ⟨_, rfl, nofun⟩

/-- A write goes on in the object at the first name. -/
theorem put_through {first : String} {fields inner : Fields}
    (into : (get? first fields).getD (.object []) = .object inner) (value : Value) (next : String)
    (rest : List String) :
    put value first (next :: rest) fields =
      (insert first (.object (put value next rest inner).1) fields, (put value next rest inner).2) := by
  rw [put, into]

/-- A write stops at a value that is no object, and changes nothing. -/
theorem put_stopped {first : String} {fields : Fields} {u : Value} (found : get? first fields = some u)
    (solid : ∀ inner, u ≠ .object inner) (value : Value) (next : String) (rest : List String) :
    put value first (next :: rest) fields = (fields, some ⟨first, u.kindName⟩) := by
  rw [put, found, Option.getD_some]
  cases u with
  | object inner => exact absurd rfl (solid inner)
  | _ => rfl

/-- **What a write does at the first name of its way.** It sets the name where the way ends; it goes on in the object
    at the name, or in a new one; or something else is in the way and all stays as it was. -/
theorem put_cases (value : Value) (first : String) (rest : List String) (fields : Fields) :
    (rest = [] ∧ put value first rest fields = (insert first value fields, none)) ∨
    (∃ next rest' inner, rest = next :: rest' ∧ (get? first fields).getD (.object []) = .object inner ∧
      put value first rest fields =
        (insert first (.object (put value next rest' inner).1) fields, (put value next rest' inner).2)) ∨
    (∃ next rest' obstacle, rest = next :: rest' ∧ put value first rest fields = (fields, some obstacle)) := by
  cases rest with
  | nil => exact .inl ⟨rfl, rfl⟩
  | cons next rest =>
      rcases entry_cases first fields with ⟨inner, into⟩ | ⟨u, found, solid⟩
      · exact .inr (.inl ⟨next, rest, inner, rfl, into, put_through into value next rest⟩)
      · exact .inr (.inr ⟨next, rest, _, rfl, put_stopped found solid value next rest⟩)

/-- **A value that was written is found** at the end of its way. -/
theorem at?_put_self {value : Value} {first : String} {rest : List String} {fields after : Fields}
    (h : put value first rest fields = (after, none)) : at? first rest after = some value := by
  induction rest generalizing first fields after with
  | nil =>
      cases h
      rw [at?_insert_self]
      rfl
  | cons next rest ih =>
      rcases put_cases value first (next :: rest) fields with ⟨ends, -⟩ | ⟨n, r, inner, same, -, eq⟩ |
        ⟨-, -, obstacle, -, eq⟩
      · cases ends
      · cases same
        obtain ⟨rfl, done⟩ := Prod.mk.inj (eq.symm.trans h)
        rw [at?_insert_self, foldlM_child?_object]
        exact ih (Prod.ext rfl done)
      · cases eq.symm.trans h

/-- **A write shows on no way that parts from its own**, whether it succeeds or not. -/
theorem at?_put_apart (value : Value) {first other : String} {rest others : List String} (fields : Fields)
    (below : ¬ first :: rest <+: other :: others) (above : ¬ other :: others <+: first :: rest) :
    at? other others (put value first rest fields).1 = at? other others fields := by
  induction rest generalizing first other others fields with
  | nil =>
      -- The way of the write ends here, so the other one starts at another name.
      have different : other ≠ first := by
        rintro rfl
        exact below (List.cons_prefix_cons.mpr ⟨rfl, List.nil_prefix⟩)
      exact at?_insert_of_ne different others value fields
  | cons next rest ih =>
      rcases put_cases value first (next :: rest) fields with ⟨ends, -⟩ | ⟨n, r, inner, same, way, eq⟩ |
        ⟨-, -, obstacle, -, eq⟩
      · cases ends
      · cases same
        rw [eq]
        by_cases together : other = first
        · subst together
          -- Both ways go on below the same name, and they part further down.
          cases others with
          | nil => exact absurd (List.cons_prefix_cons.mpr ⟨rfl, List.nil_prefix⟩) above
          | cons next' others =>
              rw [List.cons_prefix_cons, not_and] at below above
              rw [at?_insert_self, foldlM_child?_object, ih inner (below rfl) (above rfl), at?_of_getD way]
        · exact at?_insert_of_ne together others _ fields
      · rw [eq]

end Fields

/-! ## Facts -/

/-- Two paths are apart: neither of them is a prefix of the other, and they are not equal. -/
def Path.Apart (p q : Path) : Prop := ¬ p.segments <+: q.segments ∧ ¬ q.segments <+: p.segments

instance (p q : Path) : Decidable (p.Apart q) := by unfold Path.Apart; infer_instance

namespace Fact

theorem get_eq_at? (f : Fact) (p : Path) : f.get p = f.fields.at? p.first.text (p.rest.map Segment.text) := rfl

/-- A write that succeeds is found at its path. -/
theorem get_set_self {f g : Fact} {p : Path} {v : Value} (h : f.set p v = (g, none)) : g.get p = some v := by
  obtain ⟨rfl, done⟩ := Prod.mk.inj h
  rw [get_eq_at?]
  exact Fields.at?_put_self (Prod.ext rfl done)

/-- A write leaves what is at a path apart from its own. -/
theorem get_set_apart {p q : Path} (apart : p.Apart q) (f : Fact) (v : Value) : (f.set p v).1.get q = f.get q := by
  obtain ⟨below, above⟩ := apart
  rw [get_eq_at?, get_eq_at?]
  exact Fields.at?_put_apart v f.fields below above

end Fact

end Rulebook
