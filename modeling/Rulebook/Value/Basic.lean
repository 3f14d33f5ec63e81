import Rulebook.Binary64.Basic

/-!
# `Rulebook.Value.Basic` — JSON values

Records, literals and payloads are JSON values. A number is an integer that fits 64 bits, with or without
a sign, or a finite float; the two never equal each other. The fields of an object are kept in the order
of their names, each name once; `Value.normal` brings a value with repeated names into that form, where
the last value of a name counts.

## Contents
* `IsInt64`, `IsWord` — integers of 64 bits
* `Number`, `Value`, `Fields` — the values
* `Value.same` — equality: floats by value, objects name by name
* `Fields.get?`, `Fields.insert` — an object read and written, with the laws that tie the two
* `Value.normal` — every name once, in order
* `Value.kindName` — what a value is called in a message
-/

namespace Rulebook

/-! ## Numbers -/

/-- The integers of 64 bits with a sign, from -2⁶³ up to but not including 2⁶³. -/
def IsInt64 (n : Int) : Prop := -0x8000000000000000 ≤ n ∧ n < 0x8000000000000000

instance (n : Int) : Decidable (IsInt64 n) := by unfold IsInt64; infer_instance

theorem isInt64_toInt (n : Int64) : IsInt64 n.toInt := ⟨n.le_toInt, n.toInt_lt⟩

theorem IsInt64.toInt_ofInt {n : Int} (h : IsInt64 n) : (Int64.ofInt n).toInt = n := Int64.toInt_ofInt_of_le h.1 h.2

/-- The integers that a JSON number keeps exactly: those of 64 bits, with a sign or without. -/
def IsWord (n : Int) : Prop := -0x8000000000000000 ≤ n ∧ n < 0x10000000000000000

instance (n : Int) : Decidable (IsWord n) := by unfold IsWord; infer_instance

/-- A JSON number. -/
inductive Number where
  | int (n : Int) (isWord : IsWord n)
  | float (x : Binary64.Finite)
  deriving DecidableEq

namespace Number

/-- Integers equal integers and floats equal floats, by value. -/
def same : Number → Number → Bool
  | int m _, int n _ => m == n
  | float x, float y => x.eq y
  | _, _ => false

/-- The float nearest to a number. -/
def toBinary64 : Number → Binary64
  | int n _ => Binary64.ofInt n
  | float x => .finite x

/-- The number as an integer, when it is one. -/
def toInt? : Number → Option Int
  | int n _ => some n
  | float _ => none

/-- An integer as a number, when it fits. -/
def ofInt? (n : Int) : Option Number :=
  if h : IsWord n then some (int n h) else none

/-- A signed 64-bit integer as a number. -/
def ofInt64 (n : Int64) : Number :=
  int n.toInt ⟨n.le_toInt, by have := n.toInt_lt; omega⟩

end Number

/-! ## Values -/

/-- A JSON value. -/
inductive Value where
  | null
  | bool (b : Bool)
  | number (n : Number)
  | string (s : String)
  | array (items : List Value)
  | object (fields : List (String × Value))

/-- The fields of an object. -/
abbrev Fields := List (String × Value)

namespace Value

/-- What a value is called in a message. -/
def kindName : Value → String
  | null => "null"
  | bool _ => "boolean"
  | number _ => "number"
  | string _ => "string"
  | array _ => "array"
  | object _ => "object"

mutual

/-- Equality of values: the same kind, and the same contents in the same order. -/
def same : Value → Value → Bool
  | null, null => true
  | bool a, bool b => a == b
  | number m, number n => m.same n
  | string s, string t => s == t
  | array xs, array ys => sameItems xs ys
  | object xs, object ys => sameFields xs ys
  | _, _ => false

/-- Equality of the items of two arrays, one by one. -/
def sameItems : List Value → List Value → Bool
  | [], [] => true
  | x :: xs, y :: ys => same x y && sameItems xs ys
  | _, _ => false

/-- Equality of the fields of two objects, one by one. -/
def sameFields : List (String × Value) → List (String × Value) → Bool
  | [], [] => true
  | (k, x) :: xs, (l, y) :: ys => k == l && same x y && sameFields xs ys
  | _, _ => false

end

end Value

/-! ## Fields -/

namespace Fields

/-- The value of a field. -/
def get? (key : String) : Fields → Option Value
  | [] => none
  | (k, v) :: rest => if key = k then some v else get? key rest

/-- `fields` with another value for the field `key`, where it is. -/
def replace (key : String) (value : Value) : Fields → Fields
  | [] => []
  | (k, v) :: rest => if key = k then (key, value) :: rest else (k, v) :: replace key value rest

/-- `fields` with a new field `key` before the first name above it. -/
def place (key : String) (value : Value) : Fields → Fields
  | [] => [(key, value)]
  | (k, v) :: rest => if key < k then (key, value) :: (k, v) :: rest else (k, v) :: place key value rest

/-- `fields` with `key` set to `value`, in its place by the order of names. -/
def insert (key : String) (value : Value) (fields : Fields) : Fields :=
  if (get? key fields).isSome then replace key value fields else place key value fields

/-- `fields` overridden by the fields of `more`. -/
def extend (fields more : Fields) : Fields :=
  more.foldl (fun acc f => insert f.1 f.2 acc) fields

/-- The fields in the order of their names, each name once; the last value of a name counts. -/
def ofList (fields : List (String × Value)) : Fields := extend [] fields

/-! ### Reading after writing -/

theorem get?_replace_self {key : String} {fields : Fields} (h : (get? key fields).isSome) (value : Value) :
    get? key (replace key value fields) = some value := by
  induction fields with
  | nil => simp [get?] at h
  | cons f rest ih =>
    obtain ⟨k, v⟩ := f
    by_cases hk : key = k
    · simp [replace, get?, hk]
    · rw [get?, if_neg hk] at h
      simp only [replace, get?, if_neg hk, ih h]

theorem get?_place_self {key : String} {fields : Fields} (h : get? key fields = none) (value : Value) :
    get? key (place key value fields) = some value := by
  induction fields with
  | nil => simp [place, get?]
  | cons f rest ih =>
    obtain ⟨k, v⟩ := f
    by_cases hk : key = k
    · simp [get?, hk] at h
    · rw [get?, if_neg hk] at h
      by_cases hl : key < k
      · simp [place, get?, hl]
      · simp only [place, get?, if_neg hl, if_neg hk, ih h]

theorem get?_replace_of_ne {key other : String} (h : other ≠ key) (value : Value) (fields : Fields) :
    get? other (replace key value fields) = get? other fields := by
  induction fields with
  | nil => rfl
  | cons f rest ih =>
    obtain ⟨k, v⟩ := f
    by_cases hk : key = k
    · subst hk; simp [replace, get?, h]
    · simp only [replace, get?, if_neg hk, ih]

theorem get?_place_of_ne {key other : String} (h : other ≠ key) (value : Value) (fields : Fields) :
    get? other (place key value fields) = get? other fields := by
  induction fields with
  | nil => simp [place, get?, h]
  | cons f rest ih =>
    obtain ⟨k, v⟩ := f
    by_cases hl : key < k
    · simp [place, get?, hl, h]
    · simp only [place, get?, if_neg hl, ih]

/-- A field that was written reads back. -/
@[simp] theorem get?_insert_self (key : String) (value : Value) (fields : Fields) :
    get? key (insert key value fields) = some value := by
  unfold insert
  split
  · exact get?_replace_self ‹_› value
  · rename_i h; exact get?_place_self (Option.not_isSome_iff_eq_none.1 h) value

/-- A write to one field leaves the others. -/
theorem get?_insert_of_ne {key other : String} (h : other ≠ key) (value : Value) (fields : Fields) :
    get? other (insert key value fields) = get? other fields := by
  unfold insert
  split
  · exact get?_replace_of_ne h value fields
  · exact get?_place_of_ne h value fields

/-- Writing what is there changes nothing. -/
theorem insert_get? {key : String} {value : Value} {fields : Fields} (h : get? key fields = some value) :
    insert key value fields = fields := by
  rw [insert, if_pos (by simp [h])]
  induction fields with
  | nil => rfl
  | cons f rest ih =>
    obtain ⟨k, v⟩ := f
    by_cases hk : key = k
    · simp_all [replace, get?]
    · rw [get?, if_neg hk] at h
      rw [replace, if_neg hk, ih h]

end Fields

/-! ## Normal form -/

namespace Value

mutual

/-- The value with the fields of every object in it in order and each name once. -/
def normal : Value → Value
  | array items => array (normalItems items)
  | object fields => object (Fields.ofList (normalFields fields))
  | v => v

/-- Every item in normal form. -/
def normalItems : List Value → List Value
  | [] => []
  | v :: vs => normal v :: normalItems vs

/-- The value of every field in normal form. -/
def normalFields : List (String × Value) → List (String × Value)
  | [] => []
  | (k, v) :: rest => (k, normal v) :: normalFields rest

end

/-- The field `key` of an object; nothing for other values. -/
def field? (key : String) : Value → Option Value
  | object fields => Fields.get? key fields
  | _ => none

/-- The text of a string. -/
def text? : Value → Option String
  | string s => some s
  | _ => none

end Value

end Rulebook
