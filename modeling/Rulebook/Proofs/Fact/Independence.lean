import Rulebook.Proofs.Fact

/-!
# `Rulebook.Proofs.Fact.Independence` — writes at paths apart

Two writes at paths apart from each other have nothing to do with one another: each does what it would do alone, and
the fields are the same in either order, down to the places of new names. Where the paths part at their first names
this is a matter of two fields of one object; where they part further down, both go through the object at the name
that they share, and the argument is repeated inside it.

* `Fields.insert_insert_self`, `Fields.insert_insert_of_ne` — two writes to one field, and to two fields
* `Fields.put_put_apart` — a write along a way does not depend on a write along a way apart from it
* `Fact.set_set_apart` — nor does a write at a path
* `Fact.writes_frame` — **a write is found at its path, shows nowhere apart from it, and may change places with any
  write there**
-/

namespace Rulebook

namespace Fields

/-! ## Two writes to an object -/

section

variable (v w : Value)

theorem replace_replace_self (key : String) (fields : Fields) :
    replace key w (replace key v fields) = replace key w fields := by
  induction fields with
  | nil => rfl
  | cons f rest ih =>
      obtain ⟨k, x⟩ := f
      by_cases here : key = k
      · simp only [replace, if_pos here, if_true]
      · simp only [replace, if_neg here, ih]

theorem replace_place_self {key : String} {fields : Fields} (absent : get? key fields = none) :
    replace key w (place key v fields) = place key w fields := by
  induction fields with
  | nil => simp only [place, replace, if_true]
  | cons f rest ih =>
      obtain ⟨k, x⟩ := f
      by_cases here : key = k
      · rw [get?, if_pos here] at absent
        cases absent
      · rw [get?, if_neg here] at absent
        by_cases below : key < k
        · simp only [place, if_pos below, replace, if_true]
        · simp only [place, if_neg below, replace, if_neg here, ih absent]

/-- **The later of two writes to a field counts.** -/
theorem insert_insert_self (key : String) (fields : Fields) :
    insert key w (insert key v fields) = insert key w fields := by
  have written : (get? key (insert key v fields)).isSome := by rw [get?_insert_self]; rfl
  rw [insert, if_pos written]
  by_cases present : (get? key fields).isSome
  · rw [insert, insert, if_pos present, if_pos present, replace_replace_self]
  · rw [insert, insert, if_neg present, if_neg present,
      replace_place_self v w (Option.not_isSome_iff_eq_none.mp present)]

variable {key other : String} (different : other ≠ key) (fields : Fields)

include different

theorem replace_replace_of_ne :
    replace other w (replace key v fields) = replace key v (replace other w fields) := by
  induction fields with
  | nil => rfl
  | cons f rest ih =>
      obtain ⟨k, x⟩ := f
      by_cases here : key = k
      · subst here
        simp only [replace, if_true, if_neg different]
      · by_cases there : other = k
        · subst there
          simp only [replace, if_true, if_neg here]
        · simp only [replace, if_neg here, if_neg there, ih]

theorem place_replace_of_ne :
    place other w (replace key v fields) = replace key v (place other w fields) := by
  induction fields with
  | nil => simp only [place, replace, if_neg different.symm]
  | cons f rest ih =>
      obtain ⟨k, x⟩ := f
      by_cases here : key = k
      · subst here
        by_cases below : other < key
        · simp only [replace, place, if_true, if_pos below, if_neg different.symm]
        · simp only [replace, place, if_true, if_neg below]
      · by_cases below : other < k
        · simp only [replace, place, if_neg here, if_pos below, if_neg different.symm]
        · simp only [replace, place, if_neg here, if_neg below, ih]

/-- Of two new names the lower one comes first, whichever is placed first. -/
theorem place_place_of_ne :
    place other w (place key v fields) = place key v (place other w fields) := by
  have apart : other < key ∧ ¬ key < other ∨ key < other ∧ ¬ other < key := by
    rcases Std.lt_trichotomy other key with less | same | more
    · exact .inl ⟨less, String.lt_asymm less⟩
    · exact absurd same different
    · exact .inr ⟨more, String.lt_asymm more⟩
  induction fields with
  | nil => rcases apart with ⟨less, more⟩ | ⟨less, more⟩ <;> simp only [place, if_pos less, if_neg more]
  | cons f rest ih =>
      obtain ⟨k, x⟩ := f
      by_cases here : key < k <;> by_cases there : other < k
      · rcases apart with ⟨less, more⟩ | ⟨less, more⟩ <;>
          simp only [place, if_pos here, if_pos there, if_pos less, if_neg more]
      · -- The name that is placed further on is not below the other one.
        have above : ¬ other < key := fun less => there (String.lt_trans less here)
        simp only [place, if_pos here, if_neg there, if_neg above]
      · have above : ¬ key < other := fun less => here (String.lt_trans less there)
        simp only [place, if_neg here, if_pos there, if_neg above]
      · simp only [place, if_neg here, if_neg there, ih]

/-- **Two fields may be written in either order.** -/
theorem insert_insert_of_ne :
    insert other w (insert key v fields) = insert key v (insert other w fields) := by
  rw [insert, insert.eq_def key v (insert other w fields), get?_insert_of_ne different,
    get?_insert_of_ne different.symm]
  unfold insert
  split <;> split
  · exact replace_replace_of_ne v w different fields
  · exact (place_replace_of_ne w v different.symm fields).symm
  · exact place_replace_of_ne v w different fields
  · exact place_place_of_ne v w different fields

end

/-! ## Two writes along ways apart -/

/-- All that a write does happens at the first name of its way. -/
theorem put_fst_cases (v : Value) (first : String) (rest : List String) (fields : Fields) :
    (put v first rest fields).1 = fields ∨ ∃ x, (put v first rest fields).1 = insert first x fields := by
  rcases put_cases v first rest fields with ⟨-, eq⟩ | ⟨n, r, inner, -, -, eq⟩ | ⟨n, r, obstacle, -, eq⟩
  · exact .inr ⟨v, by rw [eq]⟩
  · exact .inr ⟨_, by rw [eq]⟩
  · exact .inl (by rw [eq])

/-- A write along a way leaves another field of the object alone, and does not look at it. -/
theorem put_insert_of_ne {key first : String} (different : first ≠ key) (v x : Value) (rest : List String)
    (fields : Fields) :
    put v first rest (insert key x fields) =
      (insert key x (put v first rest fields).1, (put v first rest fields).2) := by
  have same : get? first (insert key x fields) = get? first fields := get?_insert_of_ne different x fields
  cases rest with
  | nil => exact Prod.ext (insert_insert_of_ne x v different fields) rfl
  | cons next rest =>
      rcases entry_cases first fields with ⟨inner, into⟩ | ⟨u, found, solid⟩
      · rw [put_through into, put_through (by rw [same]; exact into), insert_insert_of_ne x _ different]
      · rw [put_stopped found solid, put_stopped (same.trans found) solid]

/-- A write below a name that holds an object changes that object. -/
theorem put_insert_object (v : Value) (first next : String) (rest : List String) (inner fields : Fields) :
    put v first (next :: rest) (insert first (.object inner) fields) =
      (insert first (.object (put v next rest inner).1) fields, (put v next rest inner).2) := by
  rw [put_through (by rw [get?_insert_self]; rfl), insert_insert_self]

/-- Writes along ways that start at different names do not depend on each other. -/
theorem put_put_of_ne {first other : String} (different : other ≠ first) (v w : Value) (rest others : List String)
    (fields : Fields) :
    put w other others (put v first rest fields).1 =
      ((put v first rest (put w other others fields).1).1, (put w other others fields).2) := by
  rcases put_fst_cases v first rest fields with stays | ⟨x, sets⟩
  · rcases put_fst_cases w other others fields with stays' | ⟨y, sets'⟩
    · rw [stays', stays]
      exact Prod.ext stays' rfl
    · rw [stays, sets', put_insert_of_ne different.symm, stays, ← sets']
  · rw [sets, put_insert_of_ne different]
    rcases put_fst_cases w other others fields with stays' | ⟨y, sets'⟩
    · rw [stays', sets]
    · rw [sets', put_insert_of_ne different.symm, sets, insert_insert_of_ne x y different]

/-- **A write does not depend on a write along a way apart from its own**: it meets the same obstacle or none, and the
    fields that the two leave are those of the other order. -/
theorem put_put_apart (v w : Value) {first other : String} {rest others : List String} (fields : Fields)
    (below : ¬ first :: rest <+: other :: others) (above : ¬ other :: others <+: first :: rest) :
    put w other others (put v first rest fields).1 =
      ((put v first rest (put w other others fields).1).1, (put w other others fields).2) := by
  induction rest generalizing first other others fields with
  | nil =>
      have different : other ≠ first := by
        rintro rfl
        exact below (List.cons_prefix_cons.mpr ⟨rfl, List.nil_prefix⟩)
      exact put_put_of_ne different v w [] others fields
  | cons next rest ih =>
      by_cases together : other = first
      · subst together
        cases others with
        | nil => exact absurd (List.cons_prefix_cons.mpr ⟨rfl, List.nil_prefix⟩) above
        | cons next' others =>
            rw [List.cons_prefix_cons, not_and] at below above
            rcases entry_cases other fields with ⟨inner, into⟩ | ⟨u, found, solid⟩
            · -- Both go on in one object, where the ways still part.
              rw [put_through into, put_through into, put_insert_object, put_insert_object,
                ih inner (below rfl) (above rfl)]
            · -- Both stop at one obstacle.
              rw [put_stopped found solid, put_stopped found solid, put_stopped found solid]
      · exact put_put_of_ne together v w (next :: rest) others fields

end Fields

/-! ## Facts -/

namespace Fact

/-- **A write at a path does not depend on a write at a path apart from its own.** -/
theorem set_set_apart {p q : Path} (apart : p.Apart q) (f : Fact) (v w : Value) :
    (f.set p v).1.set q w = (((f.set q w).1.set p v).1, (f.set q w).2) := by
  obtain ⟨below, above⟩ := apart
  have same := Fields.put_put_apart v w f.fields below above
  unfold set
  dsimp only
  rw [same]

/-- **A write is found at its path, shows nowhere apart from it, and may change places with any write there.** After a
    write that succeeds the path leads to its value, and a path apart from it to what it led to before, or still to
    nothing. A write at a path apart from it succeeds after it exactly where it succeeds without it. Then the two succeed
    in the other order as well, and they leave the same fact. -/
theorem writes_frame {f g : Fact} {p : Path} {v : Value} (done : f.set p v = (g, none)) :
    g.get p = some v ∧
    ∀ q, p.Apart q → g.get q = f.get q ∧
      ∀ w, (g.set q w).2 = (f.set q w).2 ∧
        ∀ h, f.set q w = (h, none) → h.set p v = ((g.set q w).1, none) := by
  refine ⟨get_set_self done, ?_⟩
  intro q apart
  have left : (f.set p v).1 = g := by rw [done]
  refine ⟨left ▸ get_set_apart apart f v, ?_⟩
  intro w
  have second := set_set_apart apart f v w
  rw [left] at second
  refine ⟨by rw [second], ?_⟩
  intro h also
  -- Seen from the other write, this one comes second.
  have first := set_set_apart ⟨apart.2, apart.1⟩ f w v
  rw [also, done] at first
  exact first

/-- The second item of a list is read before and after a write into an object that the write makes, while another write
    into that object comes before or after it. -/
theorem writes_frame_new_object :
    let bids := Value.array [.number (.int 3 (by decide)), .number (.int 5 (by decide))]
    let f : Fact := ⟨0, some "7", [("bids", bids)]⟩
    let country : Path := ⟨⟨"geo", by decide⟩, [⟨"country", by decide⟩]⟩
    let city : Path := ⟨⟨"geo", by decide⟩, [⟨"city", by decide⟩]⟩
    let second : Path := ⟨⟨"bids", by decide⟩, [⟨"1", by decide⟩]⟩
    ∃ g h, f.set country (.string "AT") = (g, none) ∧ country.Apart second ∧ country.Apart city ∧
      f.set city (.string "Graz") = (h, none) ∧ g.get country = some (.string "AT") ∧
      g.get second = some (.number (.int 5 (by decide))) ∧
      h.set country (.string "AT") = ((g.set city (.string "Graz")).1, none) := by
  intro bids f country city second
  have done : f.set country (.string "AT") = ((f.set country (.string "AT")).1, none) := rfl
  have also : f.set city (.string "Graz") = ((f.set city (.string "Graz")).1, none) := rfl
  have list : country.Apart second := by decide
  have object : country.Apart city := by decide
  obtain ⟨found, elsewhere⟩ := writes_frame done
  exact ⟨_, _, done, list, object, also, found, (elsewhere second list).1, ((elsewhere city object).2 _).2 _ also⟩

end Fact

end Rulebook
