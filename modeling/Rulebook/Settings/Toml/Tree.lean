import Rulebook.Settings.Entry

/-!
# `Rulebook.Settings.Toml.Tree` — the tables of a settings file while it is read

The tables of a settings file come about in three ways: by a header of their own, on the way that a header
names, or on the way that a dotted key names. Which lines may still add to a table depends on that: each
table has at most one header, no dotted key reaches into a table that has one, and a table that a dotted key
reaches into never gets one. Tables between braces are closed, like every other value. A header in double
brackets adds a row to a list of tables, and what follows reaches into the last row.

## Contents
* `Origin`, `Node`, `entries` — tables under construction, and what they amount to
* `add?` — a value at a key
* `below?` — a change of the table at a route of keys
* `open?`, `openRow?` — headers
-/

namespace Rulebook.Toml

/-! ## Tables under construction -/

/-- How a table came about: by a header, only on the way of headers, or on the way of a dotted key. -/
inductive Origin where
  | header
  | passed
  | dotted
  deriving DecidableEq

/-- What a key holds: a value, a table, or a list of tables of which the last one is still open. -/
inductive Node where
  | value (e : Entry)
  | table (origin : Origin) (nodes : List (String × Node))
  | rows (closed : List Entry) (last : List (String × Node))

mutual

/-- The entry that a node amounts to. -/
def entry : Node → Entry
  | .value e => e
  | .table _ nodes => .table (entries nodes)
  | .rows closed last => .list (closed ++ [.table (entries last)])

/-- The entries that nodes amount to. -/
def entries : List (String × Node) → List (String × Entry)
  | [] => []
  | (key, node) :: rest => (key, entry node) :: entries rest

end

/-! ## Values -/

/-- The nodes below a part of a dotted key, and how they are put back. A dotted key creates tables and reaches
    into those that have no header, which get none from then on. It passes the last row of a list of tables,
    but sets nothing in the row itself: more than one part of the key must be left there. -/
def inner? (isLast : Bool) : Option Node → Option (List (String × Node) × (List (String × Node) → Node))
  | none => some ([], .table .dotted)
  | some (.table .dotted nodes) => some (nodes, .table .dotted)
  | some (.table .passed nodes) => some (nodes, .table .dotted)
  | some (.table .header _) => none
  | some (.rows closed last) => if isLast then none else some (last, .rows closed)
  | some (.value _) => none

/-- A table with a value at a key that holds nothing yet. -/
def add? (e : Entry) : List String → List (String × Node) → Option (List (String × Node))
  | [], _ => none
  | [key], nodes =>
    if (Keyed.get? key nodes).isSome then none else some (Keyed.put key (.value e) nodes)
  | key :: rest, nodes => do
    let (inner, back) ← inner? (rest.length == 1) (Keyed.get? key nodes)
    return Keyed.put key (back (← add? e rest inner)) nodes

/-! ## Headers -/

/-- The nodes below a key of a header, and how they are put back. A header creates tables and passes all
    those that are not closed. -/
def passing? : Option Node → Option (List (String × Node) × (List (String × Node) → Node))
  | none => some ([], .table .passed)
  | some (.table origin nodes) => some (nodes, .table origin)
  | some (.rows closed last) => some (last, .rows closed)
  | some (.value _) => none

/-- A table in which `f` has changed the table at a route of keys. -/
def below? (f : List (String × Node) → Option (List (String × Node))) :
    List String → List (String × Node) → Option (List (String × Node))
  | [], nodes => f nodes
  | key :: rest, nodes => do
    let (inner, back) ← passing? (Keyed.get? key nodes)
    return Keyed.put key (back (← below? f rest inner)) nodes

/-- A table with one at a key that has a header now, which it had not before. -/
def openHere? (key : String) (nodes : List (String × Node)) : Option (List (String × Node)) :=
  match Keyed.get? key nodes with
  | none => some (Keyed.put key (.table .header []) nodes)
  | some (.table .passed inner) => some (Keyed.put key (.table .header inner) nodes)
  | some _ => none

/-- A table with one more row in the list of tables at a key. -/
def openRowHere? (key : String) (nodes : List (String × Node)) : Option (List (String × Node)) :=
  match Keyed.get? key nodes with
  | none => some (Keyed.put key (.rows [] []) nodes)
  | some (.rows closed last) => some (Keyed.put key (.rows (closed ++ [.table (entries last)]) []) nodes)
  | some _ => none

/-- A table after a header, which is in double brackets if `isRow`. -/
def open? (isRow : Bool) (key : List String) (nodes : List (String × Node)) : Option (List (String × Node)) :=
  match key.getLast? with
  | none => none
  | some last => below? (if isRow then openRowHere? last else openHere? last) key.dropLast nodes

end Rulebook.Toml
