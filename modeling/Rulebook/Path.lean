import Rulebook.Text.Blank
import Rulebook.Text.Scan
import Rulebook.Value.Basic

/-!
# `Rulebook.Path` — field paths

A path names a place in a record by the segments on the way to it, written with dots between them:
`targeting.geo.country`, `bookies.0`. A segment is trimmed and not empty.

## Contents
* `Segment`, `Path` — paths as lists of segments, never empty
* `Path.parse`, `Path.text` — from text and back
* `Path.resolve`, `Path.resolveIn` — the value at a path, if there is one
-/

namespace Rulebook

/-! ## Segments -/

/-- A segment has no blank at its ends, no dot in it, and at least one character. -/
def IsSegment (cs : List Char) : Prop := cs ≠ [] ∧ '.' ∉ cs ∧ Text.trimmed cs = cs

instance (cs : List Char) : Decidable (IsSegment cs) := by unfold IsSegment; infer_instance

/-- A segment of a path. -/
structure Segment where
  text : String
  isSegment : IsSegment text.toList
  deriving DecidableEq

/-- The segment that a piece of text stands for: the piece without the blanks around it. -/
def Segment.ofPiece? (cs : List Char) : Option Segment :=
  if h : IsSegment (Text.trimmed cs) then
    some ⟨String.ofList (Text.trimmed cs), by rw [String.toList_ofList]; exact h⟩
  else none

/-! ## Paths -/

/-- A path: its segments, of which there is at least one. -/
structure Path where
  first : Segment
  rest : List Segment
  deriving DecidableEq

/-- A text that is no path. -/
structure InvalidPath where
  text : String
  deriving DecidableEq

/-- The text of the error, which quotes the whole text. -/
def InvalidPath.message (e : InvalidPath) : String := s!"无效的字段路径: '{e.text}'"

namespace Path

/-- The texts of the segments. -/
def segments (p : Path) : List String := (p.first :: p.rest).map Segment.text

/-- The path that a text stands for. Every piece between dots must be a segment. -/
def parse (s : String) : Except InvalidPath Path :=
  let (p, ps) := Text.pieces '.' s.toList
  match Segment.ofPiece? p, ps.mapM Segment.ofPiece? with
  | some first, some rest => .ok ⟨first, rest⟩
  | _, _ => .error ⟨s⟩

/-- The path as text: its segments with dots between them. -/
def text (p : Path) : String := ".".intercalate p.segments

/-! ## Resolution -/

/-- The index that a segment stands for in an array: decimal digits, after a plus sign or not. -/
def index? (segment : String) : Option Nat :=
  let ds := match segment.toList with
    | '+' :: ds => ds
    | ds => ds
  if ds.isEmpty || ds.any (!·.isDigit) then none else some (Text.digitsValue ds)

/-- The value below `v` at a segment: a field of an object or an item of an array. -/
def child? (v : Value) (segment : String) : Option Value :=
  match v with
  | .object fields => Fields.get? segment fields
  | .array items => (index? segment).bind (items[·]?)
  | _ => none

/-- The value below `root` at a path. -/
def resolve (p : Path) (root : Value) : Option Value := p.segments.foldlM child? root

/-- The value at a path that starts at a field. -/
def resolveIn (p : Path) (fields : Fields) : Option Value :=
  (Fields.get? p.first.text fields).bind fun v => (p.rest.map Segment.text).foldlM child? v

end Path

end Rulebook
