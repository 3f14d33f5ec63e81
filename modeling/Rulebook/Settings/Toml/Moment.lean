import Rulebook.Text.Scan

/-!
# `Rulebook.Settings.Toml.Moment` — dates and times

A settings file may hold a date, a time of day, or both with an offset from universal time or not. Settings
have no use for them but as texts, so that a moment is read, checked and written in one form: the date and
the time with a `T` between them, the fraction of a second with at most nine places and no zeros at its end.

## Contents
* `Date`, `Time`, `Offset`, `Moment` — moments and their texts
* `Moment.read?` — the moment at the start of a text
-/

namespace Rulebook.Toml

/-! ## Moments -/

/-- A day of the calendar. -/
structure Date where
  year : Nat
  month : Nat
  day : Nat

/-- A time of day. Seconds may be left out, and so may their fraction, which is kept as digits. -/
structure Time where
  hour : Nat
  minute : Nat
  second : Option Nat
  fraction : Option (List Char)

/-- The distance from universal time, in minutes. -/
inductive Offset where
  | universal
  | minutes (negative : Bool) (n : Nat)

/-- A date, a time of day, or both. Only both have an offset. -/
inductive Moment where
  | date (d : Date)
  | time (t : Time)
  | both (d : Date) (t : Time) (offset : Option Offset)

/-- Whether a year has a 29th of February. -/
def isLeapYear (year : Nat) : Bool := year % 4 == 0 && (year % 100 != 0 || year % 400 == 0)

/-- How many days a month has. -/
def daysIn (year month : Nat) : Nat :=
  if month = 2 then (if isLeapYear year then 29 else 28)
  else if [4, 6, 9, 11].contains month then 30
  else 31

/-! ## Texts -/

/-- A number with zeros in front of it, up to `width` digits. -/
def padded (width n : Nat) : String :=
  let ds := Nat.toDigits 10 n
  String.ofList (List.replicate (width - ds.length) '0' ++ ds)

/-- The text of a date: `1979-05-27`. -/
def Date.text (d : Date) : String := s!"{padded 4 d.year}-{padded 2 d.month}-{padded 2 d.day}"

/-- A fraction as it is written: nine places at most, without zeros at the end unless it is zero. -/
def fractionText (ds : List Char) : String :=
  let kept := ((ds.take 9).reverse.dropWhile (· == '0')).reverse
  "." ++ (if kept.isEmpty then "0" else String.ofList kept)

/-- The text of a time: `07:32`, `07:32:00` or `07:32:00.5`. -/
def Time.text (t : Time) : String :=
  let second := (t.second.map fun n => ":" ++ padded 2 n).getD ""
  let fraction := (t.fraction.map fractionText).getD ""
  s!"{padded 2 t.hour}:{padded 2 t.minute}{second}{fraction}"

/-- The text of an offset: `Z` or `-07:00`. No distance has a plus sign. -/
def Offset.text : Offset → String
  | universal => "Z"
  | minutes negative n =>
    let sign := if negative && n != 0 then "-" else "+"
    s!"{sign}{padded 2 (n / 60)}:{padded 2 (n % 60)}"

/-- The text of a moment. -/
def Moment.text : Moment → String
  | date d => d.text
  | time t => t.text
  | both d t offset => d.text ++ "T" ++ t.text ++ (offset.map Offset.text).getD ""

/-! ## Reading -/

/-- The number of `width` digits at the start of a text, from `low` to `high`. -/
def field? (width low high : Nat) (cs : List Char) : Option (Nat × List Char) :=
  let ds := cs.take width
  let n := Text.digitsValue ds
  if ds.length = width ∧ ds.all Char.isDigit ∧ low ≤ n ∧ n ≤ high then some (n, cs.drop width)
  else none

/-- The text after a character that it starts with. -/
def after? (c : Char) : List Char → Option (List Char)
  | [] => none
  | d :: cs => if d = c then some cs else none

/-- The date at the start of a text. -/
def Date.read? (cs : List Char) : Option (Date × List Char) := do
  let (year, cs) ← field? 4 0 9999 cs
  let (month, cs) ← field? 2 1 12 (← after? '-' cs)
  let (day, cs) ← field? 2 1 (daysIn year month) (← after? '-' cs)
  return (⟨year, month, day⟩, cs)

/-- The seconds at the start of a text, and their fraction: a colon and up to 60, as a minute may have a
    leap second, and then a point and digits. -/
def seconds? : List Char → Option (Option Nat × Option (List Char) × List Char)
  | ':' :: cs => do
    let (second, cs) ← field? 2 0 60 cs
    match cs with
    | '.' :: cs =>
      let ds := cs.takeWhile Char.isDigit
      if ds.isEmpty then none else some (some second, some ds, cs.drop ds.length)
    | _ => some (some second, none, cs)
  | cs => some (none, none, cs)

/-- The time at the start of a text. -/
def Time.read? (cs : List Char) : Option (Time × List Char) := do
  let (hour, cs) ← field? 2 0 23 cs
  let (minute, cs) ← field? 2 0 59 (← after? ':' cs)
  let (second, fraction, cs) ← seconds? cs
  return (⟨hour, minute, second, fraction⟩, cs)

/-- The offset at the start of a text, which may have none. -/
def Offset.read? : List Char → Option (Option Offset × List Char)
  | [] => some (none, [])
  | c :: cs =>
    if c = 'Z' ∨ c = 'z' then some (some universal, cs)
    else if c = '+' ∨ c = '-' then do
      let (hours, cs) ← field? 2 0 23 cs
      let (rest, cs) ← field? 2 0 59 (← after? ':' cs)
      return (some (minutes (c = '-') (hours * 60 + rest)), cs)
    else some (none, c :: cs)

/-- The time and the offset after a date. -/
def Moment.readTime? (d : Date) (cs : List Char) : Option (Moment × List Char) := do
  let (t, cs) ← Time.read? cs
  let (offset, cs) ← Offset.read? cs
  return (both d t offset, cs)

/-- The moment at the start of a text. A time follows its date after a `T` in either case or after a blank; a
    blank that no time follows does not belong to the moment. -/
def Moment.read? (cs : List Char) : Option (Moment × List Char) :=
  match Date.read? cs with
  | none => (Time.read? cs).map fun (t, rest) => (time t, rest)
  | some (d, 'T' :: rest) => readTime? d rest
  | some (d, 't' :: rest) => readTime? d rest
  | some (d, ' ' :: rest) => some ((readTime? d rest).getD (date d, ' ' :: rest))
  | some (d, rest) => some (date d, rest)

end Rulebook.Toml
