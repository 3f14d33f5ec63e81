import Rulebook.Settings.Toml.Moment
import Rulebook.Settings.Toml.Number
import Rulebook.Settings.Toml.Tree

/-!
# `Rulebook.Settings.Toml` — settings files

A settings file is a TOML document: lines `key = value` under headers `[table]` and `[[table]]`, with
comments after `#`. Values are strings, numbers, truth values, moments, lists and inline tables. A key that
is set twice, like anything else that is malformed, makes the whole document malformed.

## Contents
* `value?` — values
* `Document`, `line?` — a document line by line
* `Toml.parse` — the entries of a document
-/

namespace Rulebook.Toml

/-! ## Values -/

/-- A value that holds no others. A moment stands for its text. -/
def plain? (cs : List Char) : Option (Entry × List Char) :=
  match cs with
  | '"' :: rest => (quoted? '"' rest).map fun (s, rest) => (.text s, rest)
  | '\'' :: rest => (quoted? '\'' rest).map fun (s, rest) => (.text s, rest)
  | _ =>
    if "true".toList.isPrefixOf cs then some (.truth true, cs.drop 4)
    else if "false".toList.isPrefixOf cs then some (.truth false, cs.drop 5)
    else match Moment.read? cs with
      | some (m, rest) => some (.text m.text, rest)
      | none => number? cs

/-- How deep lists and inline tables may be nested. -/
def maxDepth : Nat := 80

mutual

/-- A value, in which lists and inline tables are nested at most `room` deep. -/
def value? : Nat → Nat → List Char → Option (Entry × List Char)
  | 0, _, _ => none
  | fuel + 1, room, cs =>
    match cs, room with
    | '[' :: rest, room + 1 => (items? fuel room (skipGap rest)).map fun (es, rest) => (.list es, rest)
    | '\x7b' :: rest, room + 1 =>
      (inline? fuel room [] (skipGap rest)).map fun (nodes, rest) => (.table (entries nodes), rest)
    | _, _ => plain? cs

/-- The items of a list up to its end; a comma may stand after the last one. -/
def items? : Nat → Nat → List Char → Option (List Entry × List Char)
  | 0, _, _ => none
  | fuel + 1, room, cs =>
    match cs with
    | ']' :: rest => some ([], rest)
    | _ =>
      match value? fuel room cs with
      | none => none
      | some (e, rest) =>
        match skipGap rest with
        | ']' :: rest => some ([e], rest)
        | ',' :: rest =>
          match items? fuel room (skipGap rest) with
          | some (es, rest) => some (e :: es, rest)
          | none => none
        | _ => none

/-- The nodes of an inline table up to its end; a comma may stand after the last one. -/
def inline? : Nat → Nat → List (String × Node) → List Char → Option (List (String × Node) × List Char)
  | 0, _, _, _ => none
  | fuel + 1, room, nodes, cs =>
    match cs with
    | '\x7d' :: rest => some (nodes, rest)
    | _ =>
      match key? cs with
      | some (key, '=' :: rest) =>
        match value? fuel room (skipSpaces rest) with
        | none => none
        | some (e, rest) =>
          match add? e key nodes, skipGap rest with
          | some nodes, '\x7d' :: rest => some (nodes, rest)
          | some nodes, ',' :: rest => inline? fuel room nodes (skipGap rest)
          | _, _ => none
      | _ => none

end

/-! ## Documents -/

/-- A document so far: its tables, and the keys of the table that lines go into. -/
structure Document where
  nodes : List (String × Node)
  current : List String

/-- A document after a header, and the text after the header up to its closing bracket. -/
def Document.header? (d : Document) (isRow : Bool) (cs : List Char) : Option (Document × List Char) := do
  let (key, rest) ← key? (skipSpaces cs)
  return (⟨← open? isRow key d.nodes, key⟩, ← after? ']' rest)

/-- A document with one more line, and the text after that line. -/
def Document.line? (d : Document) (cs : List Char) : Option (Document × List Char) :=
  match cs with
  | '[' :: '[' :: rest => do
    let (d, rest) ← d.header? true rest
    return (d, ← lineEnd? (← after? ']' rest))
  | '[' :: rest => do
    let (d, rest) ← d.header? false rest
    return (d, ← lineEnd? rest)
  | _ => do
    let (key, rest) ← key? cs
    let rest ← after? '=' rest
    let (e, rest) ← value? (2 * rest.length + 1) maxDepth (skipSpaces rest)
    let nodes ← below? (add? e key) d.current d.nodes
    return (⟨nodes, d.current⟩, ← lineEnd? rest)

/-- A document with all lines of a text, of which there are no more than `fuel`. -/
def Document.lines? : Nat → Document → List Char → Option Document
  | 0, _, _ => none
  | fuel + 1, d, cs =>
    match skipGap cs with
    | [] => some d
    | rest =>
      match d.line? rest with
      | some (d, rest) => lines? fuel d rest
      | none => none

/-- A text without the byte order mark at its start. -/
def skipOrderMark (text : String) : String :=
  match text.toList with
  | '\uFEFF' :: cs => String.ofList cs
  | _ => text

/-- The entries of a document, which may start with a byte order mark. -/
def parse (text : String) : Option (List (String × Entry)) :=
  let cs := (skipOrderMark text).toList
  (Document.lines? (cs.length + 1) ⟨[], []⟩ cs).map fun d => entries d.nodes

end Rulebook.Toml
