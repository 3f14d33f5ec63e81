import Rulebook.Fact
import Rulebook.Text.Scan

/-!
# `Rulebook.Template` — messages with placeholders

A placeholder is a dotted name between `${` and `}`. It stands for the value at that path: a string for
itself, any other value for its compact JSON text. A placeholder whose path leads nowhere stays as it is,
and what is put in is not looked at again.

## Contents
* `placeholder?` — the path of the placeholder at the start of a text
* `replacement` — what a placeholder becomes
* `render` — the message of a template
-/

namespace Rulebook.Template

/-- The name in the placeholder at the start of a text, after its dollar sign. -/
def placeholder? : List Char → Option (List Char)
  | '\x7b' :: cs =>
    let n := Text.dottedName cs
    if n ≠ 0 ∧ (cs.drop n).head? = some '\x7d' then some (cs.take n) else none
  | _ => none

/-- The text of a value inside a message. -/
def valueText : Value → String
  | .string s => s
  | v => v.text

/-- What a name is replaced by; the placeholder itself if its path leads nowhere. -/
def replacement (fact : Fact) (name : List Char) : List Char :=
  let found := match Path.parse (String.ofList name) with
    | .ok p => fact.get p
    | .error _ => none
  match found with
  | some v => (valueText v).toList
  | none => '$' :: '\x7b' :: name ++ ['\x7d']

/-- The message from some place of the template on. The first `skip` characters belong to the placeholder
    before. -/
def renderFrom (fact : Fact) (skip : Nat) : List Char → List Char
  | [] => []
  | c :: cs =>
    match skip with
    | k + 1 => renderFrom fact k cs
    | 0 =>
      match if c = '$' then placeholder? cs else none with
      | none => c :: renderFrom fact 0 cs
      | some name => replacement fact name ++ renderFrom fact (name.length + 2) cs

/-- The message of a template. Without a fact it is the template itself. -/
def render (template : String) : Option Fact → String
  | none => template
  | some fact => String.ofList (renderFrom fact 0 template.toList)

end Rulebook.Template
