import Rulebook.Value.Numeral

/-!
# `Rulebook.Value.Reader` — JSON text to values

Reading goes in two steps. `marks` cuts a text into its marks: brackets, separators, strings, numbers and
names. `Reader.step` then builds the value from one mark after the other, with the open arrays and objects
on a stack. An object keeps its fields as they are written, with repeated names; `Value.normal` reduces
them.

Strings and numbers are checked in the first step and understood in the second: a value that is only
scanned may hold the escape of half a character or a number out of range.

## Contents
* `Mark`, `marks` — the marks of a text
* `Reader.State`, `Reader.step` — one mark
* `Value.read`, `Value.readScanning` — the value of a text
-/

namespace Rulebook

/-! ## Marks -/

/-- A mark of a JSON text. A string without a value escapes half a character; a number without one is out
    of range. -/
inductive Mark where
  | openArray
  | closeArray
  | openObject
  | closeObject
  | comma
  | colon
  | string (s : Option String)
  | number (n : Option Number)
  | name (v : Value)

namespace Mark

/-- The value of a hexadecimal digit. -/
def hexDigit? (c : Char) : Option Nat :=
  if '0' ≤ c ∧ c ≤ '9' then some (c.toNat - '0'.toNat)
  else if 'a' ≤ c ∧ c ≤ 'f' then some (c.toNat - 'a'.toNat + 10)
  else if 'A' ≤ c ∧ c ≤ 'F' then some (c.toNat - 'A'.toNat + 10)
  else none

/-- The value of the four hexadecimal digits at the start of `cs`. -/
def hex4? : List Char → Option Nat
  | a :: b :: c :: d :: _ => do
    return ((← hexDigit? a) * 16 + (← hexDigit? b)) * 256 + ((← hexDigit? c) * 16 + (← hexDigit? d))
  | _ => none

/-- The character after a backslash, and how many characters its escape takes. A character beyond the first
    65536 takes two escapes; half of such a pair is no character. -/
def unescape : List Char → Option (Option Char × Nat)
  | '"' :: _ => some (some '"', 1)
  | '\\' :: _ => some (some '\\', 1)
  | '/' :: _ => some (some '/', 1)
  | 'b' :: _ => some (some '\x08', 1)
  | 'f' :: _ => some (some '\x0C', 1)
  | 'n' :: _ => some (some '\n', 1)
  | 'r' :: _ => some (some '\r', 1)
  | 't' :: _ => some (some '\t', 1)
  | 'u' :: cs =>
    match hex4? cs with
    | none => none
    | some high =>
      if 0xD800 ≤ high ∧ high < 0xDC00 then
        match cs.drop 4 with
        | '\\' :: 'u' :: ds =>
          match hex4? ds with
          | none => none
          | some low =>
            if 0xDC00 ≤ low ∧ low < 0xE000 then
              some (some (Char.ofNat (0x10000 + (high - 0xD800) * 0x400 + (low - 0xDC00))), 11)
            else some (none, 5)
        | _ => some (none, 5)
      else if 0xDC00 ≤ high ∧ high < 0xE000 then some (none, 5)
      else some (some (Char.ofNat high), 5)
  | _ => none

/-- The rest of a string after its opening quote: its characters, if all of its escapes have one, and its
    length with the closing quote. `skip` characters belong to an escape that is already understood. -/
def stringBody (skip : Nat) (taken : Option (List Char)) (length : Nat) :
    List Char → Option (Option String × Nat)
  | [] => none
  | c :: cs =>
    match skip with
    | k + 1 => stringBody k taken (length + 1) cs
    | 0 =>
      if c = '"' then some (taken.map fun r => String.ofList r.reverse, length + 1)
      else if c = '\\' then
        match unescape cs with
        | none => none
        | some (d, k) => stringBody k (do return (← d) :: (← taken)) (length + 1) cs
      else if c.toNat < 0x20 then none
      else stringBody 0 (taken.map (c :: ·)) (length + 1) cs

/-- The number at the start of `cs`, with its length. -/
def numeral? (cs : List Char) : Option (Numeral × Nat) := do
  let (negative, signs, cs) := match cs with
    | '-' :: cs => (true, 1, cs)
    | cs => (false, 0, cs)
  let whole := cs.takeWhile Char.isDigit
  if whole.isEmpty || (whole.length > 1 && whole.head? == some '0') then none
  let cs := cs.drop whole.length
  let (fraction, points, cs) ← match cs with
    | '.' :: cs =>
      let ds := cs.takeWhile Char.isDigit
      if ds.isEmpty then none else some (ds, 1, cs.drop ds.length)
    | cs => some ([], 0, cs)
  let exponent := Text.exponent? cs
  if exponent.isNone && (cs.head? == some 'e' || cs.head? == some 'E') then none
  let length := signs + whole.length + points + fraction.length + (exponent.map (·.length)).getD 0
  return (⟨negative, whole, fraction, exponent⟩, length)

/-- The mark at the start of a text that does not start with a blank, with its length less one. -/
def scan (c : Char) (cs : List Char) : Option (Mark × Nat) :=
  match c with
  | '[' => some (openArray, 0)
  | ']' => some (closeArray, 0)
  | '\x7b' => some (openObject, 0)
  | '\x7d' => some (closeObject, 0)
  | ',' => some (comma, 0)
  | ':' => some (colon, 0)
  | '"' => (stringBody 0 (some []) 0 cs).map fun (s, n) => (string s, n)
  | _ =>
    if "true".toList.isPrefixOf (c :: cs) then some (name (.bool true), 3)
    else if "false".toList.isPrefixOf (c :: cs) then some (name (.bool false), 4)
    else if "null".toList.isPrefixOf (c :: cs) then some (name .null, 3)
    else (numeral? (c :: cs)).map fun (x, n) => (number x.value?, n - 1)

end Mark

/-- The marks of a text, between which only spaces, tabs and line ends stand. `skip` characters belong to
    the mark before. -/
def marks (skip : Nat) (found : List Mark) : List Char → Option (List Mark)
  | [] => some found.reverse
  | c :: cs =>
    match skip with
    | k + 1 => marks k found cs
    | 0 =>
      if c = ' ' ∨ c = '\t' ∨ c = '\n' ∨ c = '\r' then marks 0 found cs
      else match Mark.scan c cs with
        | none => none
        | some (m, n) => marks n (m :: found) cs

/-! ## Values -/

namespace Reader

/-- An array or an object that is not complete: what it holds so far, last first. -/
inductive Open where
  | array (items : List Value)
  | object (fields : List (String × Value)) (key : String)

/-- What may come next. -/
inductive Expected where
  | value
  | valueOrClose
  | key
  | keyOrClose
  | colon
  | separator
  | nothing (v : Value)

/-- The open arrays and objects, what may come next, and whether the value is only scanned. -/
structure State where
  stack : List Open
  expected : Expected
  scanning : Bool

/-- The state after a value is complete. -/
def State.complete (v : Value) : List Open → Bool → State
  | [], scanning => ⟨[], .nothing v, scanning⟩
  | .array items :: rest, scanning => ⟨.array (v :: items) :: rest, .separator, scanning⟩
  | [.object fields key], _ => ⟨[.object ((key, v) :: fields) key], .separator, false⟩
  | .object fields key :: rest, scanning =>
    ⟨.object ((key, v) :: fields) key :: rest, .separator, scanning⟩

/-- What the reader asks of a text: how deep arrays and objects may nest, and which fields of the outermost
    object are only scanned, to any depth. -/
structure Demand where
  depth : Nat
  scanned : String → Bool

/-- The value that a mark stands for on its own, where one may come. -/
def atom (s : State) : Mark → Option Value
  | .string (some t) => some (.string t)
  | .string none => if s.scanning then some .null else none
  | .number (some n) => some (.number n)
  | .number none => if s.scanning then some .null else none
  | .name v => some v
  | _ => none

/-- The state with one more array or object open. -/
def enter (d : Demand) (s : State) (o : Open) (e : Expected) : Option State :=
  if s.scanning || s.stack.length < d.depth then some ⟨o :: s.stack, e, s.scanning⟩ else none

/-- The state after a mark where a value may come. -/
def startValue (d : Demand) (s : State) : Mark → Option State
  | .openArray => enter d s (.array []) .valueOrClose
  | .openObject => enter d s (.object [] "") .keyOrClose
  | m => (atom s m).map fun v => State.complete v s.stack s.scanning

/-- The state after the name of a field. -/
def startField (d : Demand) (s : State) : Mark → Option State
  | .string (some key) =>
    match s.stack with
    | [.object fields _] => some ⟨[.object fields key], .colon, d.scanned key⟩
    | .object fields _ :: rest => some ⟨.object fields key :: rest, .colon, s.scanning⟩
    | _ => none
  | .string none =>
    match s.scanning, s.stack with
    | true, .object fields _ :: rest => some ⟨.object fields "" :: rest, .colon, true⟩
    | _, _ => none
  | _ => none

/-- The state after the bracket that closes the innermost array or object. -/
def close (s : State) : Mark → Option State
  | .closeArray =>
    match s.stack with
    | .array items :: rest => some (State.complete (.array items.reverse) rest s.scanning)
    | _ => none
  | .closeObject =>
    match s.stack with
    | .object fields _ :: rest => some (State.complete (.object fields.reverse) rest s.scanning)
    | _ => none
  | _ => none

/-- The state after one more mark. -/
def step (d : Demand) (s : State) (m : Mark) : Option State :=
  match s.expected with
  | .nothing _ => none
  | .value => startValue d s m
  | .valueOrClose => (match m with | .closeArray => close s m | m => startValue d s m)
  | .key => startField d s m
  | .keyOrClose => (match m with | .closeObject => close s m | m => startField d s m)
  | .colon => (match m with | .colon => some { s with expected := .value } | _ => none)
  | .separator =>
    match m, s.stack with
    | .comma, .array _ :: _ => some { s with expected := .value }
    | .comma, .object _ _ :: _ => some { s with expected := .key }
    | .closeArray, _ | .closeObject, _ => close s m
    | _, _ => none

end Reader

namespace Value

/-- The value of a JSON text as it is written. -/
def readScanning (d : Reader.Demand) (text : String) : Option Value := do
  let ms ← marks 0 [] text.toList
  let s ← ms.foldlM (Reader.step d) ⟨[], .value, false⟩
  match s.expected with
  | .nothing v => some v
  | _ => none

/-- How deep arrays and objects may nest in a file. -/
def fileDepth : Nat := 127

/-- The value of a JSON text in normal form. -/
def read (depth : Nat) (text : String) : Option Value :=
  (readScanning ⟨depth, fun _ => false⟩ text).map normal

end Value

end Rulebook
