import Rulebook.Value.Basic
import Rulebook.Binary64.Decimal

/-!
# `Rulebook.Value.Text` — values as compact JSON text

The text of a value has no blanks between its parts. A string escapes only quotes, backslashes and control
characters. A float always shows that it is one: it has a point or an exponent.

## Contents
* `Number.layout`, `Number.text` — the text of a number
* `quoted` — a string between quotes
* `Value.text` — the text of a value on one line
* `Value.pretty` — the text of a value with a line for each item and field
-/

namespace Rulebook

/-! ## Numbers -/

/-- Floats are written without an exponent from 0.00001 up to, but not including, 10¹⁶, and a whole one
    ends in `.0`. -/
def Number.layout : Binary64.Layout := ⟨.even, fun e => -5 ≤ e && e < 16, ".0"⟩

/-- The decimal digits of an integer, after a minus sign if it is negative. -/
def intText (n : Int) : String := if n < 0 then "-" ++ Nat.repr n.natAbs else Nat.repr n.natAbs

/-- The text of a number. -/
def Number.text : Number → String
  | int n _ => intText n
  | float x => Number.layout.writeFinite x

/-! ## Strings -/

/-- A character inside a quoted string. Control characters without a letter of their own are written with
    four hexadecimal digits. -/
def escaped (c : Char) : List Char :=
  if c = '"' then ['\\', '"']
  else if c = '\\' then ['\\', '\\']
  else if c.toNat = 0x08 then ['\\', 'b']
  else if c.toNat = 0x09 then ['\\', 't']
  else if c.toNat = 0x0A then ['\\', 'n']
  else if c.toNat = 0x0C then ['\\', 'f']
  else if c.toNat = 0x0D then ['\\', 'r']
  else if c.toNat < 0x20 then
    ['\\', 'u', '0', '0', Nat.digitChar (c.toNat / 16), Nat.digitChar (c.toNat % 16)]
  else [c]

/-- A string between quotes. -/
def quoted (s : String) : String := String.ofList ('"' :: s.toList.flatMap escaped ++ ['"'])

/-! ## Values -/

namespace Value

mutual

/-- The compact text of a value. -/
def text : Value → String
  | null => "null"
  | bool b => if b then "true" else "false"
  | number n => n.text
  | string s => quoted s
  | array items => "[" ++ ",".intercalate (itemTexts items) ++ "]"
  | object fields => "\x7b" ++ ",".intercalate (fieldTexts fields) ++ "\x7d"

/-- The texts of the items of an array. -/
def itemTexts : List Value → List String
  | [] => []
  | v :: vs => text v :: itemTexts vs

/-- The texts of the fields of an object. -/
def fieldTexts : List (String × Value) → List String
  | [] => []
  | (k, v) :: rest => (quoted k ++ ":" ++ text v) :: fieldTexts rest

end

mutual

/-- The text of a value with a line for each item and field, behind `indent`. -/
def prettyFrom (indent : String) : Value → String
  | array [] => "[]"
  | object [] => "\x7b\x7d"
  | array items => "[\n" ++ ",\n".intercalate (prettyItems (indent ++ "  ") items) ++ "\n" ++ indent ++ "]"
  | object fields =>
    "\x7b\n" ++ ",\n".intercalate (prettyFields (indent ++ "  ") fields) ++ "\n" ++ indent ++ "\x7d"
  | v => text v

/-- The lines of the items of an array. -/
def prettyItems (indent : String) : List Value → List String
  | [] => []
  | v :: vs => (indent ++ prettyFrom indent v) :: prettyItems indent vs

/-- The lines of the fields of an object. -/
def prettyFields (indent : String) : List (String × Value) → List String
  | [] => []
  | (k, v) :: rest => (indent ++ quoted k ++ ": " ++ prettyFrom indent v) :: prettyFields indent rest

end

/-- The text of a value with a line for each item and field. -/
def pretty (v : Value) : String := prettyFrom "" v

end Value

end Rulebook
