import Rulebook.Expression.Token
import Rulebook.Text.Scan

/-!
# `Rulebook.Expression.Lexer` — from source to tokens

Between tokens stand spaces, tabs and line ends. Each token is the longest one at its place: `1e3` is one
number, while in `1e+` the exponent is not complete, so that a number `1` and a name `e` are read. The
names `true` and `false` are truth values.

## Contents
* `scanNumber`, `scanString`, `scanName`, `scanSymbol` — the token at the start of a text, by its first character
* `scan` — the token at the start of a text
* `lexFrom`, `lex` — the tokens of a source, or the part of it that is no token
-/

namespace Rulebook.Expression

/-- What stands at the start of a text: a token, or characters that are none. `more` counts the characters
    after the first one. -/
inductive Scanned where
  | token (t : Token) (more : Nat)
  | stuck (more : Nat)
  deriving DecidableEq

/-! ## Numbers and names -/

/-- The digits after a point at the start of `cs`; none if there is no point. -/
def fractionDigits : List Char → List Char
  | '.' :: cs => cs.takeWhile Char.isDigit
  | _ => []

/-- The number at the start of `cs`, which starts with a digit. With a fraction or an exponent it is a
    float, the one nearest to the decimal; without, an integer, which must fit 64 bits. -/
def scanNumber (cs : List Char) : Scanned :=
  let whole := cs.takeWhile Char.isDigit
  let rest := cs.drop whole.length
  let fraction := fractionDigits rest
  let points := if fraction.isEmpty then 0 else fraction.length + 1
  match fraction, Text.exponent? (rest.drop points) with
  | [], none =>
    let n := Text.digitsValue whole
    if IsInt64 n then .token (.literal (.int (.ofNat n))) (whole.length - 1)
    else .stuck (whole.length - 1)
  | _, exponent =>
    let power := (exponent.map (·.power)).getD 0
    let d : Binary64.Decimal := ⟨Text.digitsValue (whole ++ fraction), power - fraction.length⟩
    let length := whole.length + points + (exponent.map (·.length)).getD 0
    .token (.literal (.float (.ofDecimal false d))) (length - 1)

/-- The token of a dotted name. -/
def nameToken (cs : List Char) : Token :=
  if cs = "true".toList then .literal (.bool true)
  else if cs = "false".toList then .literal (.bool false)
  else .path (String.ofList cs)

/-- The name at the start of `cs`, which starts with a letter or an underscore. -/
def scanName (cs : List Char) : Scanned :=
  let n := Text.dottedName cs
  .token (nameToken (cs.take n)) (n - 1)

/-! ## Strings -/

/-- How far a string reaches after its opening quote, and whether it is closed. A backslash takes the next
    character with it, unless that ends the line. -/
def stringExtent (quote : Char) : List Char → Bool × Nat
  | [] => (false, 0)
  | c :: cs =>
    if c = quote then (true, 1)
    else if c = '\\' then
      match cs with
      | [] => (false, 0)
      | d :: ds =>
        if d = '\n' then (false, 0)
        else
          let (closed, n) := stringExtent quote ds
          (closed, n + 2)
    else
      let (closed, n) := stringExtent quote cs
      (closed, n + 1)

/-- The character that a backslash and `c` stand for. -/
def unescape? (c : Char) : Option Char :=
  if c = 'n' then some '\n'
  else if c = 't' then some '\t'
  else if c = 'r' then some '\r'
  else if c = '\\' ∨ c = '"' ∨ c = '\'' then some c
  else none

/-- The characters that the inside of a string stands for. -/
def unescaped? : List Char → Option (List Char)
  | [] => some []
  | c :: cs =>
    if c = '\\' then
      match cs with
      | [] => none
      | d :: ds => (unescape? d).bind fun x => (unescaped? ds).map (x :: ·)
    else (unescaped? cs).map (c :: ·)

/-- The string at the start of a text, after its opening quote. -/
def scanString (quote : Char) (cs : List Char) : Scanned :=
  match stringExtent quote cs with
  | (false, n) => .stuck n
  | (true, n) =>
    match unescaped? (cs.take (n - 1)) with
    | some inner => .token (.literal (.string (String.ofList inner))) n
    | none => .stuck n

/-! ## Symbols -/

/-- The symbol at the start of a text. -/
def scanSymbol (c : Char) (cs : List Char) : Scanned :=
  let equals := cs.head? = some '='
  if c = '=' then (if equals then .token (.op .eq) 1 else .stuck 0)
  else if c = '!' then (if equals then .token (.op .ne) 1 else .stuck 0)
  else if c = '<' then (if equals then .token (.op .le) 1 else .token (.op .lt) 0)
  else if c = '>' then (if equals then .token (.op .ge) 1 else .token (.op .gt) 0)
  else if c = '+' then .token (.op .add) 0
  else if c = '-' then .token (.op .sub) 0
  else if c = '*' then .token (.op .mul) 0
  else if c = '/' then .token (.op .div) 0
  else if c = '%' then .token (.op .rem) 0
  else if c = '(' then .token .openParen 0
  else if c = ')' then .token .closeParen 0
  else .stuck 0

/-! ## Sources -/

/-- The characters that separate tokens. -/
def isGap (c : Char) : Bool := c == ' ' || c == '\t' || c == '\n' || c == '\r'

/-- What stands at the start of a text that does not start with a gap. -/
def scan (c : Char) (cs : List Char) : Scanned :=
  if c.isDigit then scanNumber (c :: cs)
  else if Text.isNameStart c then scanName (c :: cs)
  else if c = '"' ∨ c = '\'' then scanString c cs
  else scanSymbol c cs

/-- The tokens of a text that starts at position `pos` of the source, or the span that is no token. The
    first `skip` characters belong to the token before. -/
def lexFrom (skip pos : Nat) : List Char → Except Span (List Lexeme)
  | [] => .ok []
  | c :: cs =>
    match skip with
    | k + 1 => lexFrom k (pos + 1) cs
    | 0 =>
      if isGap c then lexFrom 0 (pos + 1) cs
      else match scan c cs with
        | .stuck more => .error ⟨pos, pos + 1 + more⟩
        | .token t more => do
          let rest ← lexFrom more (pos + 1) cs
          return ⟨t, ⟨pos, pos + 1 + more⟩⟩ :: rest

/-- The tokens of a source. -/
def lex (source : String) : Except Span (List Lexeme) := lexFrom 0 0 source.toList

end Rulebook.Expression
