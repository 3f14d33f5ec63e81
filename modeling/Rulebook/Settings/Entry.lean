import Rulebook.Expression.Token
import Rulebook.Settings.Basic

/-!
# `Rulebook.Settings.Entry` — settings from files and variables

An entry is a setting before it is decoded. A variable has only text, so that entries are taken loosely: a
text that is a number serves as one, and a number or a truth value serves as text. A table may also be
written as a list of its parts in their order.

## Contents
* `Keyed.get?`, `Keyed.put` — what a list of keys holds
* `Entry`, `Entry.ofValue` — settings as a tree, and JSON values as such
* `Form.loose` — entries as settings
-/

namespace Rulebook

/-! ## Keys -/

namespace Keyed

variable {α : Type}

/-- What is at a key. -/
def get? (key : String) : List (String × α) → Option α
  | [] => none
  | (k, x) :: rest => if key = k then some x else get? key rest

/-- The list with `x` at a key: in the place of what was there, or at the end. -/
def put (key : String) (x : α) : List (String × α) → List (String × α)
  | [] => [(key, x)]
  | (k, old) :: rest => if key = k then (key, x) :: rest else (k, old) :: put key x rest

/-- What is put at a key is found there. -/
theorem get?_put_self (key : String) (x : α) (es : List (String × α)) :
    get? key (put key x es) = some x := by
  induction es with
  | nil => simp [put, get?]
  | cons e rest ih =>
    obtain ⟨k, old⟩ := e
    by_cases h : key = k
    · simp [put, get?, h]
    · simp [put, get?, h, ih]

/-- The other keys hold what they held. -/
theorem get?_put_of_ne {key other : String} (h : other ≠ key) (x : α) (es : List (String × α)) :
    get? other (put key x es) = get? other es := by
  induction es with
  | nil => simp [put, get?, h]
  | cons e rest ih =>
    obtain ⟨k, old⟩ := e
    by_cases hk : key = k
    · subst hk
      simp [put, get?, h]
    · by_cases ho : other = k
      · simp [put, get?, hk, ho]
      · simp [put, get?, hk, ho, ih]

end Keyed

/-! ## Entries -/

/-- A setting as it is found in a file or a variable. A JSON null is `nothing`, and so are the places of a list
    that is filled up to some index. -/
inductive Entry where
  | nothing
  | truth (b : Bool)
  | int (n : Int)
  | float (x : Binary64)
  | text (s : String)
  | list (items : List Entry)
  | table (entries : List (String × Entry))

namespace Entry

/-- The items of a list; none for anything else. -/
def items : Entry → List Entry
  | list es => es
  | _ => []

/-- The entries of a table; none for anything else. -/
def entries : Entry → List (String × Entry)
  | table es => es
  | _ => []

/-! ## JSON values -/

/-- A number as an entry: integers beyond 64 bits with a sign are floats. -/
def ofNumber (n : Number) : Entry :=
  match n.toInt? with
  | some i => if IsInt64 i then int i else float n.toBinary64
  | none => float n.toBinary64

mutual

/-- A JSON value as an entry. -/
def ofValue : Value → Entry
  | .null => nothing
  | .bool b => truth b
  | .number n => ofNumber n
  | .string s => text s
  | .array vs => list (ofItems vs)
  | .object fields => table (ofFields fields)

/-- The items of an array as entries. -/
def ofItems : List Value → List Entry
  | [] => []
  | v :: vs => ofValue v :: ofItems vs

/-- The fields of an object as entries. -/
def ofFields : Fields → List (String × Entry)
  | [] => []
  | (key, v) :: rest => (key, ofValue v) :: ofFields rest

end

/-! ## Loose settings -/

/-- The number that a text writes: digits after a plus sign or not, below 2⁶⁴. -/
def countOfText? (s : String) : Option Nat :=
  match Path.index? s with
  | some n => if n < UInt64.size then some n else none
  | none => none

/-- The whole number nearest to a float, halves away from zero, within 64 bits without a sign. -/
def countOfFloat : Binary64 → Nat
  | .finite x =>
    if x.negative then 0
    else min ((2 * x.units + Binary64.one) / (2 * Binary64.one)) (UInt64.size - 1)
  | .infinite negative => if negative then 0 else UInt64.size - 1
  | .nan => 0

/-- An entry as a number. -/
def count? : Entry → Option Nat
  | truth b => some b.toNat
  | int n => if 0 ≤ n then some n.toNat else none
  | float x => some (countOfFloat x)
  | text s =>
    if ["true", "on", "yes"].contains s.toLower then some 1
    else if ["false", "off", "no"].contains s.toLower then some 0
    else countOfText? s
  | _ => none

/-- An entry as a text. -/
def text? : Entry → Option String
  | truth b => some (if b then "true" else "false")
  | int n => some (intText n)
  | float x => some (Scalar.layout.write x)
  | text s => some s
  | _ => none

/-- The named parts of an entry, by name in a table and by position in a list, where further items count for
    nothing. -/
def parts? (names : List String) : Entry → Option (List (Option Entry))
  | table es => some (names.map fun n => Keyed.get? n es)
  | list es => some (names.mapIdx fun i _ => es[i]?)
  | _ => none

/-- An entry as a strategy: its name, alone or as the one key of a table. -/
def strategy? : Entry → Option Strategy
  | text s => Strategy.ofName? s
  | table [(key, _)] => Strategy.ofName? key
  | _ => none

/-- An entry as a list of texts. -/
def texts? : Entry → Option (List String)
  | list es => es.mapM text?
  | _ => none

end Entry

/-- Entries taken loosely. -/
def Form.loose : Form Entry where
  parts := Entry.parts?
  count := Entry.count?
  text := Entry.text?
  texts := Entry.texts?
  strategy := Entry.strategy?

end Rulebook
