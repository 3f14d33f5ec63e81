import Mathlib.Data.List.Nodup
import Rulebook.Value.Basic

/-!
# `Rulebook.Proofs.Fields` — objects that name each field once

An object of a JSON value has each name once. A write keeps that: it changes a field where it is, or adds one whose name
was not there. So objects that are made by writes have it too, and among them the normal form of any value. Where an
object is overridden by another one that names each field once, the fields of the second come first, whatever the order
in which they are written.

* `Fields.names`, `Value.NamesOnce` — the names of an object
* `Fields.nodup_insert`, `Fields.nodup_extend`, `Fields.nodup_ofList`, `Value.namesOnce_normal` — what names each field once
* `Fields.get?_extend` — reading an object that was overridden
-/

namespace Rulebook

namespace Fields

variable {key : String} {value : Value} {fields more : Fields}

/-- The names of the fields. -/
def names (fields : Fields) : List String := fields.map Prod.fst

theorem get?_eq_none_iff : get? key fields = none ↔ key ∉ fields.names := by
  induction fields with
  | nil => simp [get?, names]
  | cons f rest ih =>
      obtain ⟨k, v⟩ := f
      by_cases here : key = k
      · simp [get?, names, here]
      · rw [get?, if_neg here, ih, names, names, List.map_cons, List.mem_cons, or_iff_right here]

/-! ## Names after a write -/

theorem names_replace : (replace key value fields).names = fields.names := by
  induction fields with
  | nil => rfl
  | cons f rest ih =>
      obtain ⟨k, v⟩ := f
      rw [replace]
      by_cases here : key = k
      · rw [if_pos here, here]
        rfl
      · rw [if_neg here]
        exact congrArg (k :: ·) ih

theorem names_place_perm : (place key value fields).names.Perm (key :: fields.names) := by
  induction fields with
  | nil => exact .refl _
  | cons f rest ih =>
      obtain ⟨k, v⟩ := f
      rw [place]
      by_cases before : key < k
      · rw [if_pos before]
        exact .refl _
      · rw [if_neg before]
        exact (ih.cons k).trans (.swap key k _)

/-- A write names no field twice. -/
theorem nodup_insert (once : fields.names.Nodup) : (insert key value fields).names.Nodup := by
  unfold insert
  split
  · rwa [names_replace]
  · rename_i absent
    have new : key ∉ fields.names := get?_eq_none_iff.mp (Option.not_isSome_iff_eq_none.mp absent)
    exact names_place_perm.nodup_iff.mpr (List.nodup_cons.mpr ⟨new, once⟩)

theorem nodup_extend (once : fields.names.Nodup) (more : Fields) : (extend fields more).names.Nodup := by
  induction more generalizing fields with
  | nil => exact once
  | cons f rest ih => exact ih (nodup_insert once)

theorem nodup_ofList (fields : List (String × Value)) : (ofList fields).names.Nodup := by
  have none : names [] = [] := rfl
  exact nodup_extend (none ▸ List.nodup_nil) fields

/-! ## Overriding -/

/-- **What overrides an object is read first.** -/
theorem get?_extend (once : more.names.Nodup) (fields : Fields) (key : String) :
    get? key (extend fields more) = (get? key more).or (get? key fields) := by
  induction more generalizing fields with
  | nil => rfl
  | cons f rest ih =>
      obtain ⟨k, v⟩ := f
      obtain ⟨new, others⟩ := List.nodup_cons.mp once
      have step : extend fields ((k, v) :: rest) = extend (insert k v fields) rest := rfl
      rw [step, ih others, get?]
      by_cases here : key = k
      · -- The rest does not name the field again.
        rw [if_pos here, here, get?_eq_none_iff.mpr new, get?_insert_self]
        rfl
      · rw [if_neg here, get?_insert_of_ne here]

end Fields

/-! ## Values -/

namespace Value

/-- **A value that, if it is an object, has each name once.** -/
def NamesOnce (v : Value) : Prop := ∀ fields : Fields, v = .object fields → fields.names.Nodup

/-- The normal form of a value has each name once. -/
theorem namesOnce_normal (v : Value) : v.normal.NamesOnce := by
  intro fields eq
  cases v with
  | object own =>
      rw [normal] at eq
      cases eq
      exact Fields.nodup_ofList _
  | array items =>
      rw [normal] at eq
      cases eq
  | _ => cases eq

end Value

end Rulebook
