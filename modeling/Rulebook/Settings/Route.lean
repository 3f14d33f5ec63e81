import Rulebook.Settings.Entry

/-!
# `Rulebook.Settings.Route` — ways to a setting

A route leads from the table of all settings to one of them, by keys into tables and by indices into lists:
`engine.identity_keys[0]`. An index below zero counts from the end of the list. Setting an entry at a route
always succeeds: what is missing on the way is created, and what is no table or list there is replaced.

## Contents
* `Route.Step`, `Route`, `Route.ofText` — routes and their texts
* `Entry.change` — an entry changed at the end of a route
* `Entry.cover`, `Entry.set` — an entry laid over another: tables are joined key by key
-/

namespace Rulebook

/-! ## Routes -/

/-- A step of a route: into a table by a key or into a list by an index. -/
inductive Route.Step where
  | key (name : String)
  | index (i : Int)
  deriving DecidableEq

/-- The steps from the table of all settings to one of them. -/
abbrev Route := List Route.Step

namespace Route

/-- A character of a key that is written without quotes. -/
def isKeyChar (c : Char) : Bool := c.isAlphanum || c == '_' || c == '-'

/-- A blank within a line. -/
def isSpace (c : Char) : Bool := c == ' ' || c == '\t'

/-- The value of digits of 64 bits after a minus sign, a plus sign or none. -/
def int? (cs : List Char) : Option Int :=
  let (negative, ds) := match cs with
    | '-' :: ds => (true, ds)
    | '+' :: ds => (false, ds)
    | ds => (false, ds)
  let n : Int := if negative then -(Text.digitsValue ds : Int) else Text.digitsValue ds
  if ds.isEmpty || ds.any (!·.isDigit) || !decide (IsInt64 n) then none else some n

/-- The index that a text writes: an integer without a plus sign, with blanks around it or not. -/
def index? (cs : List Char) : Option Int :=
  let digits := ((cs.dropWhile isSpace).reverse.dropWhile isSpace).reverse
  if digits.head? = some '+' then none else int? digits

/-- The steps after the first key: a dot and a key, or an index in brackets. -/
def steps? (cs : List Char) : Option Route :=
  match cs with
  | [] => some []
  | '.' :: rest =>
    let name := rest.takeWhile isKeyChar
    if name.isEmpty then none
    else (steps? (rest.drop name.length)).map fun steps => .key (String.ofList name) :: steps
  | '[' :: rest =>
    let inner := rest.takeWhile (· != ']')
    match index? inner with
    | some i =>
      if inner.length < rest.length then
        (steps? (rest.drop (inner.length + 1))).map fun steps => .index i :: steps
      else none
    | none => none
  | _ => none
termination_by cs.length
decreasing_by
  all_goals
    simp only [List.length_drop, List.length_cons]
    omega

/-- The route that a text writes, which starts with a key. -/
def parse? (s : String) : Option Route := steps? ('.' :: s.toList)

/-- The route of a text. One that writes none is a key as a whole. -/
def ofText (s : String) : Route := (parse? s).getD [.key s]

end Route

/-! ## Setting -/

namespace Entry

/-- A list that is long enough for an index, and the place in it that the index stands for. An index below
    zero that goes beyond the start makes room there. -/
def reach (i : Int) (es : List Entry) : List Entry × Nat :=
  let back := (-i).toNat
  if 0 ≤ i then (es ++ List.replicate (i.toNat + 1 - es.length) nothing, i.toNat)
  else if back ≤ es.length then (es, es.length - back)
  else (List.replicate (back - es.length) nothing ++ es, 0)

/-- The place of an index is in the list that reaches it. -/
theorem reach_lt (i : Int) (es : List Entry) : (reach i es).2 < (reach i es).1.length := by
  simp only [reach]
  split
  · simp only [List.length_append, List.length_replicate]; omega
  · split
    · show es.length - (-i).toNat < es.length
      omega
    · simp only [List.length_append, List.length_replicate]; omega

/-- An entry changed by `f` at the end of a route. -/
def change (f : Entry → Entry) : Route → Entry → Entry
  | [], e => f e
  | .key name :: rest, e =>
    table (Keyed.put name (change f rest ((Keyed.get? name e.entries).getD nothing)) e.entries)
  | .index i :: rest, e =>
    let (es, place) := reach i e.items
    list (es.modify place (change f rest))

mutual

/-- An entry over what it covers: tables are joined key by key, everything else is replaced. -/
def cover (old : Entry) : Entry → Entry
  | table es => table (coverAll old.entries es)
  | e => e

/-- A table with the entries of another one over its own. -/
def coverAll (old : List (String × Entry)) : List (String × Entry) → List (String × Entry)
  | [] => old
  | (key, e) :: rest =>
    coverAll (Keyed.put key (cover ((Keyed.get? key old).getD nothing) e) old) rest

end

/-- The settings with an entry over what is at the end of a route. -/
def set (settings : Entry) (route : Route) (e : Entry) : Entry := settings.change (cover · e) route

end Entry

end Rulebook
