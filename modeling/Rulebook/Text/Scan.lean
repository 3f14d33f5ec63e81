/-!
# `Rulebook.Text.Scan` — digits, exponents, pieces and dotted names of a text

The functions on numbers and names look at the start of a list of characters and take as many of them as they
can.

## Contents
* `digitsValue`, `Exponent`, `exponent?` — decimal digits and the exponent of a number
* `pieces`, `splitText` — the pieces of a text between occurrences of a character
* `isNameStart`, `isNameChar`, `dottedName` — names with dots between them, such as `budget.total`
-/

namespace Rulebook.Text

/-! ## Numbers -/

/-- The value of decimal digits. -/
def digitsValue (ds : List Char) : Nat := Nat.ofDigitChars 10 ds 0

/-- The exponent of a number: its sign and its digits, and how many characters it takes. -/
structure Exponent where
  negative : Bool
  digits : List Char
  length : Nat

/-- The power that an exponent stands for. -/
def Exponent.power (e : Exponent) : Int :=
  if e.negative then -(digitsValue e.digits : Int) else digitsValue e.digits

/-- The exponent at the start of `cs`: a letter `e`, a sign or none, and at least one digit. -/
def exponent? : List Char → Option Exponent
  | [] => none
  | c :: cs =>
    if c = 'e' ∨ c = 'E' then
      let (negative, signs, cs) := match cs with
        | '+' :: cs => (false, 1, cs)
        | '-' :: cs => (true, 1, cs)
        | cs => (false, 0, cs)
      let ds := cs.takeWhile Char.isDigit
      if ds.isEmpty then none else some ⟨negative, ds, 1 + signs + ds.length⟩
    else none

/-! ## Pieces -/

/-- The pieces of a text between occurrences of a character: the first one and the others. -/
def pieces (separator : Char) : List Char → List Char × List (List Char)
  | [] => ([], [])
  | c :: cs =>
    let (p, ps) := pieces separator cs
    if c = separator then ([], p :: ps) else (c :: p, ps)

/-- The pieces of a text between occurrences of a character, as texts. -/
def splitText (separator : Char) (s : String) : List String :=
  let (p, ps) := pieces separator s.toList
  (p :: ps).map String.ofList

/-! ## Names -/

/-- A character that a name may start with: an ASCII letter or an underscore. -/
def isNameStart (c : Char) : Bool := c.isAlpha || c == '_'

/-- A character of a name: an ASCII letter, a digit or an underscore. -/
def isNameChar (c : Char) : Bool := c.isAlphanum || c == '_'

/-- How many characters at the start of `cs` continue a dotted name: characters of a name, and dots that
    such a character follows. -/
def dottedTail : List Char → Nat
  | [] => 0
  | c :: cs => if isNameChar c || (c == '.' && cs.head?.any isNameChar) then dottedTail cs + 1 else 0

/-- The length of the longest dotted name at the start of `cs`, zero if there is none. -/
def dottedName : List Char → Nat
  | [] => 0
  | c :: cs => if isNameStart c then dottedTail cs + 1 else 0

end Rulebook.Text
