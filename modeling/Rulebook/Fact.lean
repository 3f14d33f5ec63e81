import Rulebook.Path
import Rulebook.Value.Text

/-!
# `Rulebook.Fact` — the records that rules look at

A fact is a record with its place in the batch and the identity that it was read with. Rules read facts by
path; update actions write to a copy.

## Contents
* `Fact.ofRecord` — the fact of a record, which must be an object
* `Fact.get`, `Fact.set` — the value at a path, read and written
* `Fields.put` — a write that creates the objects on the way
-/

namespace Rulebook

/-- A record of a batch. Its identity is fixed when it is read and stays the same under later writes. -/
structure Fact where
  index : Nat
  id : Option String
  fields : Fields

/-- A record that is not an object, by its place and what it is instead. -/
structure NotAnObject where
  index : Nat
  kind : String
  deriving DecidableEq

/-- The text of the error. -/
def NotAnObject.message (e : NotAnObject) : String :=
  s!"记录无法序列化为事实: 第 {e.index} 条记录, 期望 JSON 对象, 实际为 {e.kind}"

/-- A value on the way to a target that is not an object, by its segment and what it is. -/
structure Obstacle where
  segment : String
  kind : String
  deriving DecidableEq

/-! ## Writing below a field -/

/-- A write of `value` at the path of `first` and `rest`: the fields that it leaves, and what was in its way
    if it failed. Objects that are missing on the way are created; anything else stops the write. -/
def Fields.put (value : Value) (first : String) (rest : List String) (fields : Fields) :
    Fields × Option Obstacle :=
  match rest with
  | [] => (Fields.insert first value fields, none)
  | next :: rest =>
    match (Fields.get? first fields).getD (.object []) with
    | .object inner =>
      let (inner, obstacle) := Fields.put value next rest inner
      (Fields.insert first (.object inner) fields, obstacle)
    | other => (fields, some ⟨first, other.kindName⟩)

namespace Fact

/-! ## From records -/

/-- The identity that a value gives: a number, or a string that is not empty. -/
def identity? : Value → Option String
  | .string s => if s.isEmpty then none else some s
  | .number n => some n.text
  | _ => none

/-- The identity keys of a record that is not configured otherwise. -/
def standardKeys : List String := ["campaign_id", "line_item_id", "id"]

/-- The fact of a record. The first of the keys whose value gives an identity decides it. -/
def ofRecord (keys : List String) (index : Nat) : Value → Except NotAnObject Fact
  | .object fields => .ok ⟨index, keys.findSome? fun k => (Fields.get? k fields).bind identity?, fields⟩
  | other => .error ⟨index, other.kindName⟩

/-- The identity, or else the place in the batch. -/
def label (f : Fact) : String := f.id.getD s!"#{f.index}"

/-! ## Reading and writing -/

/-- The value at a path. -/
def get (f : Fact) (p : Path) : Option Value := p.resolveIn f.fields

/-- A write of `value` at a path: the fact that it leaves, and what was in its way if it failed. -/
def set (f : Fact) (p : Path) (value : Value) : Fact × Option Obstacle :=
  let (fields, obstacle) := f.fields.put value p.first.text (p.rest.map Segment.text)
  ({ f with fields }, obstacle)

/-- The fields as one value. -/
def value (f : Fact) : Value := .object f.fields

end Fact

end Rulebook
