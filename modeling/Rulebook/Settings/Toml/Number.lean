import Rulebook.Settings.Toml.Quoted

/-!
# `Rulebook.Settings.Toml.Number` — numbers of a settings file

An integer is written in decimal, or after `0x`, `0o` or `0b` with another base and without a sign; it must fit
64 bits. A float has a fraction, an exponent or both, or is `inf` or `nan`. Single underscores may stand
between digits.

## Contents
* `digits?` — digits with underscores
* `based?`, `float?`, `number?` — numbers
-/

namespace Rulebook.Toml

/-! ## Digits -/

/-- The value of a digit in a base. -/
def digit? (base : Nat) (c : Char) : Option Nat := (Mark.hexDigit? c).filter (· < base)

/-- The values of digits in a base, between which single underscores may stand. -/
def digits? (base : Nat) (cs : List Char) : Option (List Nat × List Char) :=
  let run := cs.takeWhile fun c => (digit? base c).isSome || c == '_'
  let doubled := (run.zip (run.drop 1)).any fun p => p.1 == '_' && p.2 == '_'
  if run.isEmpty || run.head? == some '_' || run.getLast? == some '_' || doubled then none
  else some (run.filterMap (digit? base), cs.drop run.length)

/-- The number with these digits in a base. -/
def valueOf (base : Nat) (ds : List Nat) : Nat := ds.foldl (fun n d => n * base + d) 0

/-! ## Numbers -/

/-- An integer, if it fits 64 bits. -/
def int? (n : Int) : Option Entry := if IsInt64 n then some (.int n) else none

/-- A sign, and whether it is a minus. -/
def sign : List Char → Bool × List Char
  | '-' :: rest => (true, rest)
  | '+' :: rest => (false, rest)
  | rest => (false, rest)

/-- The digits of a fraction after a point; none without a point. -/
def fraction? : List Char → Option (List Nat × List Char)
  | '.' :: rest => digits? 10 rest
  | cs => some ([], cs)

/-- The power of an exponent; zero without one. -/
def power? : List Char → Option (Int × List Char)
  | [] => some (0, [])
  | c :: rest =>
    if c = 'e' ∨ c = 'E' then
      let (negative, rest) := sign rest
      (digits? 10 rest).map fun (ds, rest) =>
        let n : Int := valueOf 10 ds
        (if negative then -n else n, rest)
    else some (0, c :: rest)

/-- A float after its whole digits. One that is written with digits is not infinite. -/
def float? (negative : Bool) (whole : List Nat) (cs : List Char) : Option (Entry × List Char) := do
  let (fraction, cs) ← fraction? cs
  let (power, cs) ← power? cs
  match Binary64.ofDecimal negative ⟨valueOf 10 (whole ++ fraction), power - fraction.length⟩ with
  | .infinite _ => none
  | x => some (.float x, cs)

/-- An integer after the mark of its base. -/
def based? (base : Nat) (cs : List Char) : Option (Entry × List Char) := do
  let (ds, rest) ← digits? base cs
  return (← int? (valueOf base ds), rest)

/-- A number after its sign. -/
def unsigned? (negative : Bool) (cs : List Char) : Option (Entry × List Char) := do
  if "inf".toList.isPrefixOf cs then return (.float (.infinite negative), cs.drop 3)
  if "nan".toList.isPrefixOf cs then return (.float .nan, cs.drop 3)
  let (whole, rest) ← digits? 10 cs
  if whole.length > 1 ∧ whole.head? = some 0 then none
  if rest.head? = some '.' ∨ rest.head? = some 'e' ∨ rest.head? = some 'E' then float? negative whole rest
  else
    let n : Int := valueOf 10 whole
    return (← int? (if negative then -n else n), rest)

/-- A number. -/
def number? (cs : List Char) : Option (Entry × List Char) :=
  match cs with
  | '0' :: 'x' :: rest => based? 16 rest
  | '0' :: 'o' :: rest => based? 8 rest
  | '0' :: 'b' :: rest => based? 2 rest
  | _ =>
    let (negative, rest) := sign cs
    unsigned? negative rest

end Rulebook.Toml
