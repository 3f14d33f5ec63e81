import Rulebook.Proofs.Expression.Cutting

/-!
# `Rulebook.Proofs.Expression.Quoting` — every text can be written as a string

A string stands between two quotes of one kind. The end of a string and its value are found in two walks of their own: the
first looks for the quote that closes it, the second undoes the escapes of what stands before that quote. Where every
backslash and every quote of the kind has a backslash before it, the two agree: the first walk takes each escape as a
whole, so it stops at no quote of the text, and the second one gives each character back. It makes no difference whether
line ends and tabs are written as they are or by a letter, each of them in its own way.

* `Quote`, `letter?`, `escapeChar` — how the characters of a text are written
* `escapeChar_cases` — a character is written by an escape that stands for it, or as it is
* `stringExtent_escaped`, `unescaped?_escaped` — the two walks over a text that is written so
* `lex_literal` — **every text has a literal**, between quotes of either kind
-/

namespace Rulebook.Expression

/-! ## Writing -/

/-- The quotes that a string may stand between. -/
inductive Quote where
  | single
  | double

/-- A quote as a character. -/
def Quote.char : Quote → Char
  | single => '\''
  | double => '"'

/-- The letter that stands for a character after a backslash: line ends and tabs have one. -/
def letter? (c : Char) : Option Char :=
  if c = '\n' then some 'n'
  else if c = '\t' then some 't'
  else if c = '\r' then some 'r'
  else none

/-- A character as it is written between quotes. A backslash and a quote of the kind are written behind a backslash, and
    what has a letter may be written by it. -/
def escapeChar (q : Quote) (byLetter : Bool) (c : Char) : List Char :=
  if c = '\\' ∨ c = q.char then ['\\', c]
  else if byLetter then (letter? c).elim [c] fun x => ['\\', x]
  else [c]

/-- A text as it is written between quotes. Whether its character number `i` is written by its letter, if it has one, is up
    to `byLetter i`. -/
def escaped (q : Quote) (byLetter : Nat → Bool) : List Char → List Char
  | [] => []
  | c :: cs => escapeChar q (byLetter 0) c ++ escaped q (fun i => byLetter (i + 1)) cs

/-- The literal of a text. -/
def literal (q : Quote) (byLetter : Nat → Bool) (s : String) : String :=
  String.ofList (q.char :: (escaped q byLetter s.toList ++ [q.char]))

/-! ## Escapes -/

theorem backslash_ne_quote (q : Quote) : '\\' ≠ q.char := by
  cases q <;> decide

theorem unescape?_quote (q : Quote) : unescape? q.char = some q.char := by
  cases q <;> rfl

/-- A letter stands for its character, and it does not end the line. -/
theorem letter?_eq_some {c x : Char} (h : letter? c = some x) : unescape? x = some c ∧ x ≠ '\n' := by
  unfold letter? at h
  split at h
  · rename_i newline
    cases h
    exact ⟨congrArg some newline.symm, by decide⟩
  split at h
  · rename_i tab
    cases h
    exact ⟨congrArg some tab.symm, by decide⟩
  split at h
  · rename_i carriageReturn
    cases h
    exact ⟨congrArg some carriageReturn.symm, by decide⟩
  · cases h

/-- **A character is written by an escape that stands for it, or as it is**, and then it is no backslash and no quote of
    the kind. -/
theorem escapeChar_cases (q : Quote) (byLetter : Bool) (c : Char) :
    (∃ x, escapeChar q byLetter c = ['\\', x] ∧ unescape? x = some c ∧ x ≠ '\n') ∨
      (escapeChar q byLetter c = [c] ∧ c ≠ q.char ∧ c ≠ '\\') := by
  unfold escapeChar
  split
  · rename_i special
    refine .inl ⟨c, rfl, ?_⟩
    rcases special with rfl | rfl
    · exact ⟨rfl, by decide⟩
    · exact ⟨unescape?_quote q, by cases q <;> decide⟩
  · rename_i usual
    obtain ⟨plain, other⟩ := not_or.mp usual
    split
    · cases letter : letter? c with
      | none => exact .inr ⟨rfl, other, plain⟩
      | some x => exact .inl ⟨x, rfl, letter?_eq_some letter⟩
    · exact .inr ⟨rfl, other, plain⟩

/-! ## Reading -/

theorem unescaped?_escape {x c : Char} (stands : unescape? x = some c) (ds : List Char) :
    unescaped? ('\\' :: x :: ds) = (unescaped? ds).map (c :: ·) := by
  rw [unescaped?.eq_def]
  simp only [if_true, stands, Option.bind_some]

theorem unescaped?_plain {c : Char} (plain : c ≠ '\\') (ds : List Char) :
    unescaped? (c :: ds) = (unescaped? ds).map (c :: ·) := by
  rw [unescaped?.eq_def]
  simp only [if_neg plain]

/-- **A string ends at the quote that closes it**, whatever stands behind that. -/
theorem stringExtent_escaped (q : Quote) (byLetter : Nat → Bool) (cs rest : List Char) :
    stringExtent q.char (escaped q byLetter cs ++ q.char :: rest) = (true, (escaped q byLetter cs).length + 1) := by
  induction cs generalizing byLetter with
  | nil => exact stringExtent_quote q.char rest
  | cons c cs ih =>
      rw [escaped]
      rcases escapeChar_cases q (byLetter 0) c with ⟨x, written, -, line⟩ | ⟨written, other, plain⟩
      · rw [written, List.append_assoc, List.cons_append, List.cons_append, List.nil_append,
          stringExtent_escape (backslash_ne_quote q) line, ih]
        rfl
      · rw [written, List.append_assoc, List.singleton_append, stringExtent_plain other plain, ih]
        rfl

/-- **Undoing the escapes gives the text back.** -/
theorem unescaped?_escaped (q : Quote) (byLetter : Nat → Bool) (cs : List Char) :
    unescaped? (escaped q byLetter cs) = some cs := by
  induction cs generalizing byLetter with
  | nil => rfl
  | cons c cs ih =>
      rw [escaped]
      rcases escapeChar_cases q (byLetter 0) c with ⟨x, written, stands, -⟩ | ⟨written, -, plain⟩
      · rw [written, List.cons_append, List.singleton_append, unescaped?_escape stands, ih]
        rfl
      · rw [written, List.singleton_append, unescaped?_plain plain, ih]
        rfl

/-- A quote before a text that is written so, and one behind it, are found as a string. -/
theorem scan_escaped (q : Quote) (byLetter : Nat → Bool) (s : String) (rest : List Char) :
    scan q.char (escaped q byLetter s.toList ++ q.char :: rest) =
      .token (.literal (.string s)) ((escaped q byLetter s.toList).length + 1) := by
  have quoted : ∀ cs, scan q.char cs = scanString q.char cs := by
    intro cs
    cases q <;> rfl
  rw [quoted, scanString, stringExtent_escaped]
  simp only [Nat.add_sub_cancel, List.take_left, unescaped?_escaped, String.ofList_toList]

/-! ## Literals -/

/-- **Every text has a literal.** Between quotes of either kind, with a backslash before each backslash and each quote of the
    kind, and with any of its line ends and tabs written by their letters, a text is a source of one token: the string that
    is the text. -/
theorem lex_literal (q : Quote) (byLetter : Nat → Bool) (s : String) :
    lex (literal q byLetter s) = .ok [⟨.literal (.string s), ⟨0, (literal q byLetter s).toList.length⟩⟩] := by
  have inside : ¬ isGap q.char = true := by cases q <;> decide
  have stop : 1 + ((escaped q byLetter s.toList).length + 1) =
      (q.char :: (escaped q byLetter s.toList ++ [q.char])).length := by
    rw [List.length_cons, List.length_append, List.length_singleton, Nat.add_comm]
  rw [lex, literal, String.toList_ofList, lexFrom_token inside (scan_escaped q byLetter s []),
    lexFrom_of_length_le (by rw [List.length_append]; exact Nat.le_refl _), Nat.zero_add, stop]
  rfl

/-- A text with quotes of both kinds, a tab and a newline, of which the newline is written by its letter, and a backslash at
    its end. -/
example : literal .double (fun i => i = 4) "\"'\tä\n\\" = "\"\\\"'\tä\\n\\\\\"" := by decide +kernel

end Rulebook.Expression
