import Rulebook.Settings.Route
import Rulebook.Value.Reader

/-!
# `Rulebook.Settings.Toml.Quoted` — blanks, strings and keys of a settings file

A string stands between quotes, where a backslash starts an escape, or between apostrophes, where nothing
does. Three of either enclose a string of several lines. A key is a word without quotes or a string of one
line, and several of them with dots between them.

Each reader takes what it can from the start of a text and returns the rest.

## Contents
* `lineEnd?`, `skipLines` — blanks, comments and ends of lines
* `string?`, `block?`, `quoted?` — strings
* `keyPart?`, `key?` — keys
-/

namespace Rulebook.Toml

/-! ## Blanks and comments -/

/-- A character that comments and strings may hold. -/
def isPlain (c : Char) : Bool := c == '\t' || (0x20 ≤ c.toNat && c.toNat != 0x7F)

/-- A text without the blanks at its start. -/
def skipSpaces (cs : List Char) : List Char := cs.dropWhile Route.isSpace

/-- The text after the end of a line, before which blanks and a comment may stand. -/
def lineEnd? (cs : List Char) : Option (List Char) :=
  let cs := match skipSpaces cs with
    | '#' :: rest => rest.dropWhile isPlain
    | rest => rest
  match cs with
  | [] => some []
  | '\n' :: rest => some rest
  | '\r' :: '\n' :: rest => some rest
  | _ => none

/-- A text without the blanks, comments and line ends at its start, of which there are no more than `fuel`. -/
def skipLines : Nat → List Char → List Char
  | 0, cs => cs
  | fuel + 1, cs =>
    match skipSpaces cs with
    | [] => []
    | rest =>
      match lineEnd? rest with
      | some next => skipLines fuel next
      | none => rest

/-- A text without the blanks, comments and line ends at its start. -/
def skipGap (cs : List Char) : List Char := skipLines cs.length cs

/-- A text without the blanks and line ends at its start. -/
def skipBlank : List Char → List Char
  | ' ' :: cs => skipBlank cs
  | '\t' :: cs => skipBlank cs
  | '\n' :: cs => skipBlank cs
  | '\r' :: '\n' :: cs => skipBlank cs
  | cs => cs

/-! ## Strings -/

/-- The character after a backslash, and the rest of the text. -/
def unescape? : List Char → Option (Char × List Char)
  | 'b' :: cs => some ('\x08', cs)
  | 't' :: cs => some ('\t', cs)
  | 'n' :: cs => some ('\n', cs)
  | 'f' :: cs => some ('\x0C', cs)
  | 'r' :: cs => some ('\r', cs)
  | 'e' :: cs => some ('\x1B', cs)
  | '"' :: cs => some ('"', cs)
  | '\\' :: cs => some ('\\', cs)
  | 'x' :: cs => code 2 cs
  | 'u' :: cs => code 4 cs
  | 'U' :: cs => code 8 cs
  | _ => none
where
  /-- The character of a code of `n` hexadecimal digits. -/
  code (n : Nat) (cs : List Char) : Option (Char × List Char) := do
    let digits ← (cs.take n).mapM Mark.hexDigit?
    let c := digits.foldl (fun acc d => acc * 16 + d) 0
    if digits.length = n ∧ (c < 0xD800 ∨ (0xE000 ≤ c ∧ c < 0x110000)) then some (Char.ofNat c, cs.drop n)
    else none

/-- The rest of a string after its opening quote. Between apostrophes nothing is escaped. -/
def string? (quote : Char) : Nat → List Char → List Char → Option (String × List Char)
  | 0, _, _ => none
  | _, _, [] => none
  | fuel + 1, taken, c :: cs =>
    if c = quote then some (String.ofList taken.reverse, cs)
    else if c = '\\' ∧ quote = '"' then
      match unescape? cs with
      | some (d, rest) => string? quote fuel (d :: taken) rest
      | none => none
    else if isPlain c then string? quote fuel (c :: taken) cs
    else none

/-- The text after a backslash at the end of a line: the blanks and line ends that follow are skipped. -/
def joined? (cs : List Char) : Option (List Char) :=
  match skipSpaces cs with
  | '\n' :: rest => some (skipBlank rest)
  | '\r' :: '\n' :: rest => some (skipBlank rest)
  | _ => none

/-- The rest of a string of several lines after its three opening quotes. One or two quotes belong to the
    string wherever they stand, also before the closing three. -/
def block? (quote : Char) : Nat → List Char → List Char → Option (String × List Char)
  | 0, _, _ => none
  | _, _, [] => none
  | fuel + 1, taken, c :: cs =>
    if c = quote then
      let more := (cs.takeWhile (· == quote)).length
      if more < 2 then block? quote fuel (c :: taken) cs
      else if more < 5 then
        some (String.ofList (taken.reverse ++ List.replicate (more - 2) quote), cs.drop more)
      else none
    else if c = '\\' ∧ quote = '"' then
      match joined? cs, unescape? cs with
      | some rest, _ => block? quote fuel taken rest
      | none, some (d, rest) => block? quote fuel (d :: taken) rest
      | none, none => none
    else if c = '\r' then
      match cs with
      | '\n' :: rest => block? quote fuel ('\n' :: c :: taken) rest
      | _ => none
    else if c = '\n' ∨ isPlain c then block? quote fuel (c :: taken) cs
    else none

/-- A text without the end of a line at its start. -/
def skipLineEnd : List Char → List Char
  | '\n' :: cs => cs
  | '\r' :: '\n' :: cs => cs
  | cs => cs

/-- The rest of a string after its first quote. A line that ends right after three quotes is skipped. -/
def quoted? (quote : Char) (cs : List Char) : Option (String × List Char) :=
  match cs with
  | a :: b :: rest =>
    if a = quote ∧ b = quote then block? quote (rest.length + 1) [] (skipLineEnd rest)
    else string? quote (cs.length + 1) [] cs
  | _ => string? quote (cs.length + 1) [] cs

/-! ## Keys -/

/-- One part of a key. -/
def keyPart? (cs : List Char) : Option (String × List Char) :=
  match cs with
  | '"' :: rest => string? '"' (rest.length + 1) [] rest
  | '\'' :: rest => string? '\'' (rest.length + 1) [] rest
  | _ =>
    let name := cs.takeWhile Route.isKeyChar
    if name.isEmpty then none else some (String.ofList name, cs.drop name.length)

/-- How many parts a key may have. -/
def maxParts : Nat := 80

/-- A key: no more than `room` parts, with dots between them. -/
def keyParts? : Nat → List Char → Option (List String × List Char)
  | 0, _ => none
  | room + 1, cs => do
    let (part, rest) ← keyPart? cs
    match skipSpaces rest with
    | '.' :: rest =>
      let (parts, rest) ← keyParts? room (skipSpaces rest)
      return (part :: parts, rest)
    | rest => return ([part], rest)

/-- A key: its parts, and the text after it and the blanks that follow. -/
def key? (cs : List Char) : Option (List String × List Char) := keyParts? maxParts cs

end Rulebook.Toml
