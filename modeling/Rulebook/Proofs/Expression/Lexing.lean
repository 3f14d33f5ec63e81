import Rulebook.Expression.Lexer
import Rulebook.Proofs.Except
import Rulebook.Proofs.Path

/-!
# `Rulebook.Proofs.Expression.Lexing` — what tokens are, and what stands after them

A token is found by a look at the characters from its start on, and the look ends where the token cannot go on.
A character between tokens ends all of them, so what stands after it does not matter. Where a text starts shows in the
places of its tokens and in nothing else.

* `scan_append_gap` — a token is found in the same way with a gap and any text after it;
* `lexFrom_append_gap` — so a source is read up to a gap as if it ended there;
* `lexFrom_shift` — a text has the same tokens at another position, moved by the difference;
* `scan_cases` — what a token can be;
* `mem_lex_path` — every path token of a source is read as a path that prints as the token.
-/

namespace Rulebook.Expression

open Text

/-! ## Gaps -/

theorem isGap_cases {g : Char} (h : isGap g = true) : g = ' ' ∨ g = '\t' ∨ g = '\n' ∨ g = '\r' := by
  simpa [isGap, or_assoc] using h

/-- A gap is no character of a number, a name or a symbol. -/
theorem isGap_spec {g : Char} (h : isGap g = true) :
    g.isDigit = false ∧ isNameChar g = false ∧ g ≠ '.' ∧ g ≠ 'e' ∧ g ≠ 'E' ∧ g ≠ '=' := by
  rcases isGap_cases h with rfl | rfl | rfl | rfl <;> decide

theorem takeWhile_append_stop {p : Char → Bool} {g : Char} (h : p g = false) (cs ds : List Char) :
    (cs ++ g :: ds).takeWhile p = cs.takeWhile p := by
  induction cs with
  | nil => simp [h]
  | cons c cs ih =>
      by_cases hc : p c
      · rw [List.cons_append, List.takeWhile_cons_of_pos hc, List.takeWhile_cons_of_pos hc, ih]
      · rw [List.cons_append, List.takeWhile_cons_of_neg hc, List.takeWhile_cons_of_neg hc]

/-! ## Lengths -/

/-- How many characters a fraction takes with its point. -/
def fractionExtent (cs : List Char) : Nat :=
  if (fractionDigits cs).isEmpty then 0 else (fractionDigits cs).length + 1

/-- How many characters an exponent takes. -/
def exponentExtent (cs : List Char) : Nat := ((exponent? cs).map (·.length)).getD 0

/-- How many characters a number takes. -/
def numberExtent (cs : List Char) : Nat :=
  let whole := (cs.takeWhile Char.isDigit).length
  let points := fractionExtent (cs.drop whole)
  whole + points + exponentExtent ((cs.drop whole).drop points)

/-- A number that is found takes its extent. -/
theorem scanNumber_extent {cs : List Char} {t : Token} {more : Nat} (h : scanNumber cs = .token t more) :
    more = numberExtent cs - 1 := by
  simp only [scanNumber] at h
  split at h
  · rename_i fraction none
    split at h
    · cases h
      simp [numberExtent, fractionExtent, exponentExtent, fraction] at none ⊢
      simp [none]
    · cases h
  · cases h
    rfl

/-- The point and the digits of a fraction stand in the text. -/
theorem fractionExtent_le (cs : List Char) : fractionExtent cs ≤ cs.length := by
  unfold fractionExtent fractionDigits
  split
  · rename_i cs
    have bound : (cs.takeWhile Char.isDigit).length ≤ cs.length := (List.takeWhile_prefix _).length_le
    split
    · exact Nat.zero_le _
    · exact Nat.succ_le_succ bound
  · exact Nat.zero_le _

/-- The sign of an exponent: whether it is a minus, how many characters it takes, and what stands after it. -/
def exponentSign : List Char → Bool × Nat × List Char
  | '+' :: cs => (false, 1, cs)
  | '-' :: cs => (true, 1, cs)
  | cs => (false, 0, cs)

theorem exponentSign_other {c : Char} (plus : c ≠ '+') (minus : c ≠ '-') (cs : List Char) :
    exponentSign (c :: cs) = (false, 0, c :: cs) := by
  unfold exponentSign
  split
  · rename_i eq
    exact absurd (List.cons.inj eq).1 plus
  · rename_i eq
    exact absurd (List.cons.inj eq).1 minus
  · rfl

theorem exponentSign_cons_append (c : Char) (cs ds : List Char) :
    exponentSign (c :: cs ++ ds) =
      ((exponentSign (c :: cs)).1, (exponentSign (c :: cs)).2.1, (exponentSign (c :: cs)).2.2 ++ ds) := by
  by_cases plus : c = '+'
  · subst plus
    rfl
  · by_cases minus : c = '-'
    · subst minus
      rfl
    · rw [List.cons_append, exponentSign_other plus minus, exponentSign_other plus minus]
      rfl

theorem exponentSign_length (cs : List Char) :
    (exponentSign cs).2.1 + (exponentSign cs).2.2.length = cs.length := by
  unfold exponentSign
  split <;> simp [Nat.add_comm]

theorem exponent?_cons (c : Char) (cs : List Char) :
    exponent? (c :: cs) =
      if c = 'e' ∨ c = 'E' then
        let ds := (exponentSign cs).2.2.takeWhile Char.isDigit
        if ds.isEmpty then none else some ⟨(exponentSign cs).1, ds, 1 + (exponentSign cs).2.1 + ds.length⟩
      else none := rfl

/-- The letter, the sign and the digits of an exponent stand in the text. -/
theorem exponentExtent_le (cs : List Char) : exponentExtent cs ≤ cs.length := by
  cases cs with
  | nil => exact Nat.le_refl 0
  | cons c cs =>
      rw [exponentExtent, exponent?_cons]
      have sign := exponentSign_length cs
      have digits := (List.takeWhile_prefix (l := (exponentSign cs).2.2) Char.isDigit).length_le
      grind

theorem numberExtent_le (cs : List Char) : numberExtent cs ≤ cs.length := by
  have whole := (List.takeWhile_prefix (l := cs) Char.isDigit).length_le
  have points := fractionExtent_le (cs.drop (cs.takeWhile Char.isDigit).length)
  have exponent := exponentExtent_le ((cs.drop (cs.takeWhile Char.isDigit).length).drop
    (fractionExtent (cs.drop (cs.takeWhile Char.isDigit).length)))
  rw [List.length_drop, List.length_drop] at exponent
  rw [List.length_drop] at points
  rw [numberExtent]
  omega

theorem dottedName_le (cs : List Char) : dottedName cs ≤ cs.length := by
  cases cs with
  | nil => exact Nat.le_refl 0
  | cons c cs =>
      have tail := (dottedTail_take cs).2
      rw [dottedName]
      grind

/-! ## Strings -/

theorem stringExtent_quote (quote : Char) (cs : List Char) : stringExtent quote (quote :: cs) = (true, 1) := by
  rw [stringExtent.eq_def]
  exact if_pos rfl

theorem stringExtent_escape {quote c : Char} (other : '\\' ≠ quote) (line : c ≠ '\n') (cs : List Char) :
    stringExtent quote ('\\' :: c :: cs) = ((stringExtent quote cs).1, (stringExtent quote cs).2 + 2) := by
  rw [stringExtent.eq_def]
  simp only [if_neg other, if_neg line, if_true]

theorem stringExtent_plain {quote c : Char} (other : c ≠ quote) (plain : c ≠ '\\') (cs : List Char) :
    stringExtent quote (c :: cs) = ((stringExtent quote cs).1, (stringExtent quote cs).2 + 1) := by
  rw [stringExtent.eq_def]
  simp only [if_neg other, if_neg plain]

/-- A string that is closed is so whatever stands after it. -/
theorem stringExtent_append {quote : Char} {cs : List Char} (closed : (stringExtent quote cs).1 = true)
    (es : List Char) :
    stringExtent quote (cs ++ es) = stringExtent quote cs ∧ 0 < (stringExtent quote cs).2 ∧
      (stringExtent quote cs).2 ≤ cs.length := by
  induction cs using stringExtent.induct quote with
  | case1 => cases closed
  | case2 cs =>
      rw [List.cons_append, stringExtent_quote, stringExtent_quote, List.length_cons]
      exact ⟨rfl, Nat.one_pos, Nat.succ_le_succ (Nat.zero_le _)⟩
  | case3 other => simp [stringExtent, other] at closed
  | case4 cs other => simp [stringExtent, other] at closed
  | case5 c cs line _ _ _ other ih =>
      rw [stringExtent_escape other line] at closed ⊢
      obtain ⟨same, -, bound⟩ := ih closed
      rw [List.cons_append, List.cons_append, stringExtent_escape other line, same, List.length_cons,
        List.length_cons]
      exact ⟨rfl, Nat.succ_pos _, Nat.add_le_add_right bound 2⟩
  | case6 c cs other plain _ _ _ ih =>
      rw [stringExtent_plain other plain] at closed ⊢
      obtain ⟨same, -, bound⟩ := ih closed
      rw [List.cons_append, stringExtent_plain other plain, same, List.length_cons]
      exact ⟨rfl, Nat.succ_pos _, Nat.add_le_add_right bound 1⟩

theorem scanString_append {quote : Char} {cs : List Char} {t : Token} {more : Nat}
    (h : scanString quote cs = .token t more) (es : List Char) :
    scanString quote (cs ++ es) = .token t more ∧ more ≤ cs.length := by
  unfold scanString at h ⊢
  split at h
  · cases h
  · rename_i n extent
    obtain ⟨same, -, bound⟩ := stringExtent_append (by rw [extent]) es
    rw [extent] at same bound
    rw [same]
    simp only
    rw [List.take_append_of_le_length (by omega)]
    split at h
    · cases h
      exact ⟨rfl, bound⟩
    · cases h

/-! ## Tokens before a gap -/

section Gap

variable {g : Char} (gap : isGap g = true) (ds : List Char)

include gap

theorem fractionDigits_append_gap (cs : List Char) :
    fractionDigits (cs ++ g :: ds) = fractionDigits cs := by
  obtain ⟨digit, -, dot, -⟩ := isGap_spec gap
  unfold fractionDigits
  cases cs with
  | nil =>
      split
      · rename_i eq
        exact absurd (List.cons.inj eq).1 dot
      · rfl
  | cons c cs =>
      by_cases hc : c = '.'
      · subst hc
        exact takeWhile_append_stop digit cs ds
      · split
        · rename_i eq
          exact absurd (List.cons.inj eq).1 hc
        · split
          · rename_i eq
            exact absurd (List.cons.inj eq).1 hc
          · rfl

theorem exponentSign_append_gap (cs : List Char) :
    exponentSign (cs ++ g :: ds) =
      ((exponentSign cs).1, (exponentSign cs).2.1, (exponentSign cs).2.2 ++ g :: ds) := by
  cases cs with
  | nil => rcases isGap_cases gap with rfl | rfl | rfl | rfl <;> rfl
  | cons c cs => exact exponentSign_cons_append c cs (g :: ds)

theorem exponent?_append_gap (cs : List Char) : exponent? (cs ++ g :: ds) = exponent? cs := by
  obtain ⟨digit, -, -, small, large, -⟩ := isGap_spec gap
  cases cs with
  | nil => simp [exponent?, small, large]
  | cons c cs =>
      rw [List.cons_append, exponent?_cons, exponent?_cons, exponentSign_append_gap gap]
      simp only [takeWhile_append_stop digit]

theorem dottedTail_append_gap (cs : List Char) : dottedTail (cs ++ g :: ds) = dottedTail cs := by
  obtain ⟨-, named, dot, -⟩ := isGap_spec gap
  induction cs with
  | nil => simp [dottedTail, named, dot]
  | cons c cs ih =>
      have after : (cs ++ g :: ds).head?.any isNameChar = cs.head?.any isNameChar := by
        cases cs with
        | nil => simpa using named
        | cons d cs => rfl
      rw [List.cons_append, dottedTail, dottedTail, after, ih]

/-- A number is found in the same way with a gap after it. -/
theorem scanNumber_append_gap (cs : List Char) : scanNumber (cs ++ g :: ds) = scanNumber cs := by
  obtain ⟨digit, -⟩ := isGap_spec gap
  have whole := takeWhile_append_stop digit cs ds
  have bound : (cs.takeWhile Char.isDigit).length ≤ cs.length := (List.takeWhile_prefix _).length_le
  have points := fractionExtent_le (cs.drop (cs.takeWhile Char.isDigit).length)
  rw [fractionExtent] at points
  simp only [scanNumber, whole, List.drop_append_of_le_length bound, fractionDigits_append_gap gap,
    List.drop_append_of_le_length points, exponent?_append_gap gap]

/-- A name is found in the same way with a gap after it. -/
theorem scanName_append_gap (cs : List Char) : scanName (cs ++ g :: ds) = scanName cs := by
  have same : dottedName (cs ++ g :: ds) = dottedName cs := by
    cases cs with
    | nil =>
        have start : isNameStart g = false := Bool.eq_false_iff.mpr fun h =>
          Bool.eq_false_iff.mp (isGap_spec gap).2.1 (isNameChar_of_isNameStart h)
        simp [dottedName, start]
    | cons c cs => simp only [List.cons_append, dottedName, dottedTail_append_gap gap]
  simp only [scanName, same, List.take_append_of_le_length (dottedName_le cs)]

theorem scanSymbol_append_gap (c : Char) (cs : List Char) : scanSymbol c (cs ++ g :: ds) = scanSymbol c cs := by
  have same : ((cs ++ g :: ds).head? = some '=') = (cs.head? = some '=') := by
    cases cs with
    | nil => simpa using (isGap_spec gap).2.2.2.2.2
    | cons d cs => rfl
  simp only [scanSymbol, same]

/-- **A gap ends every token**: a token is found in the same way with a gap and any text after it. -/
theorem scan_append_gap {c : Char} {cs : List Char} {t : Token} {more : Nat} (h : scan c cs = .token t more) :
    scan c (cs ++ g :: ds) = .token t more := by
  unfold scan at h ⊢
  split
  · rename_i digit
    rw [if_pos digit] at h
    rw [← List.cons_append, scanNumber_append_gap gap, h]
  · rename_i digit
    rw [if_neg digit] at h
    split
    · rename_i start
      rw [if_pos start] at h
      rw [← List.cons_append, scanName_append_gap gap, h]
    · rename_i start
      rw [if_neg start] at h
      split
      · rename_i quote
        rw [if_pos quote] at h
        exact (scanString_append h (g :: ds)).1
      · rename_i quote
        rw [if_neg quote] at h
        rw [scanSymbol_append_gap gap, h]

end Gap

/-- A symbol is an operator or a parenthesis, and stands in a text with `length` characters after the first. -/
def Scanned.IsSymbol (length : Nat) : Scanned → Prop
  | .token t more => ((∃ o, t = .op o) ∨ t = .openParen ∨ t = .closeParen) ∧ more ≤ length
  | .stuck _ => True

theorem isSymbol_scanSymbol (c : Char) (cs : List Char) : (scanSymbol c cs).IsSymbol cs.length := by
  have single : ∀ o, (Scanned.token (.op o) 0).IsSymbol cs.length := fun o => ⟨.inl ⟨o, rfl⟩, Nat.zero_le _⟩
  have double : ∀ o, cs.head? = some '=' → (Scanned.token (.op o) 1).IsSymbol cs.length := by
    intro o equals
    refine ⟨.inl ⟨o, rfl⟩, ?_⟩
    cases cs with
    | nil => cases equals
    | cons d ds => exact Nat.succ_le_succ (Nat.zero_le _)
  unfold scanSymbol
  dsimp only
  -- One question after the other; `split` would keep every answer as a hypothesis.
  repeat' refine iteInduction (fun _ => ?_) (fun _ => ?_)
  all_goals first
    | exact trivial
    | exact single _
    | exact double _ ‹_›
    | exact ⟨.inr (.inl rfl), Nat.zero_le _⟩
    | exact ⟨.inr (.inr rfl), Nat.zero_le _⟩

theorem scanSymbol_token {c : Char} {cs : List Char} {t : Token} {more : Nat}
    (h : scanSymbol c cs = .token t more) :
    ((∃ o, t = .op o) ∨ t = .openParen ∨ t = .closeParen) ∧ more ≤ cs.length := by
  have symbol := isSymbol_scanSymbol c cs
  rwa [h] at symbol

/-- A token stands in the text. -/
theorem scan_length_le {c : Char} {cs : List Char} {t : Token} {more : Nat} (h : scan c cs = .token t more) :
    more ≤ cs.length := by
  unfold scan at h
  split at h
  · have bound := numberExtent_le (c :: cs)
    rw [List.length_cons] at bound
    have extent := scanNumber_extent h
    omega
  split at h
  · simp only [scanName, Scanned.token.injEq] at h
    have bound := dottedName_le (c :: cs)
    rw [List.length_cons] at bound
    omega
  split at h
  · exact (scanString_append h []).2
  · exact (scanSymbol_token h).2

/-! ## Sources -/

/-- A gap is passed over. -/
theorem lexFrom_gap {c : Char} (gap : isGap c = true) (pos : Nat) (cs : List Char) :
    lexFrom 0 pos (c :: cs) = lexFrom 0 (pos + 1) cs := by
  simp only [lexFrom, if_pos gap]

/-- Where a token is found, it comes first. -/
theorem lexFrom_token {c : Char} {cs : List Char} {t : Token} {more : Nat} (inside : ¬ isGap c = true)
    (found : scan c cs = .token t more) (pos : Nat) :
    lexFrom 0 pos (c :: cs) =
      (lexFrom more (pos + 1) cs).map fun later => ⟨t, ⟨pos, pos + 1 + more⟩⟩ :: later := by
  simp only [lexFrom, if_neg inside, found]
  cases lexFrom more (pos + 1) cs <;> rfl

/-- A text of tokens starts with a gap or with a token. -/
theorem lexFrom_cases {pos : Nat} {c : Char} {cs : List Char} {ls : List Lexeme}
    (h : lexFrom 0 pos (c :: cs) = .ok ls) :
    (isGap c = true ∧ lexFrom 0 (pos + 1) cs = .ok ls) ∨
    (¬ isGap c = true ∧ ∃ t more later, scan c cs = .token t more ∧ lexFrom more (pos + 1) cs = .ok later ∧
      ls = ⟨t, ⟨pos, pos + 1 + more⟩⟩ :: later) := by
  by_cases gap : isGap c = true
  · rw [lexFrom_gap gap] at h
    exact .inl ⟨gap, h⟩
  · cases found : scan c cs with
    | stuck more =>
        simp only [lexFrom, if_neg gap, found] at h
        cases h
    | token t more =>
        rw [lexFrom_token gap found] at h
        cases rest : lexFrom more (pos + 1) cs with
        | error e =>
            rw [rest] at h
            cases h
        | ok later =>
            rw [rest] at h
            cases h
            exact .inr ⟨gap, t, more, later, rfl, rest, rfl⟩

/-- **A source is read up to a gap as if it ended there**, and goes on after it. -/
theorem lexFrom_append_gap {g : Char} (gap : isGap g = true) (ds : List Char) {skip pos : Nat} {cs : List Char}
    (bound : skip ≤ cs.length) {ls : List Lexeme} (h : lexFrom skip pos cs = .ok ls) :
    lexFrom skip pos (cs ++ g :: ds) = (lexFrom 0 (pos + cs.length + 1) ds).map (ls ++ ·) := by
  induction cs generalizing skip pos ls with
  | nil =>
      cases Nat.le_zero.mp bound
      cases h
      rw [List.nil_append, lexFrom_gap gap]
      cases eq : lexFrom 0 (pos + 1) ds <;> simp [Except.map]
  | cons c cs ih =>
      -- The rest of the text starts one place further, so positions behind the gap stay what they are.
      have shift : pos + (c :: cs).length + 1 = pos + 1 + cs.length + 1 := by
        rw [List.length_cons]
        omega
      rw [shift, List.cons_append]
      cases skip with
      | succ k => exact ih (Nat.le_of_succ_le_succ bound) h
      | zero =>
          rcases lexFrom_cases h with ⟨between, rest⟩ | ⟨inside, t, more, later, found, rest, rfl⟩
          · rw [lexFrom_gap between]
            exact ih (Nat.zero_le _) rest
          · rw [lexFrom_token inside (scan_append_gap gap ds found), ih (scan_length_le found) rest]
            cases lexFrom 0 (pos + 1 + cs.length + 1) ds <;> rfl

/-- A span of a text that stands `d` characters further on. -/
def Span.shift (d : Nat) (s : Span) : Span := ⟨s.start + d, s.stop + d⟩

/-- A lexeme of a text that stands `d` characters further on. -/
def Lexeme.shift (d : Nat) (l : Lexeme) : Lexeme := ⟨l.token, l.span.shift d⟩

/-- **Where a text stands shows in places** and in nothing else. -/
theorem lexFrom_shift (d skip pos : Nat) (cs : List Char) :
    lexFrom skip (pos + d) cs =
      ((lexFrom skip pos cs).map (List.map (Lexeme.shift d))).mapError (Span.shift d) := by
  induction cs generalizing skip pos with
  | nil => rfl
  | cons c cs ih =>
      have further : pos + d + 1 = pos + 1 + d := Nat.add_right_comm pos d 1
      have place : ∀ more, (⟨pos + d, pos + d + 1 + more⟩ : Span) = Span.shift d ⟨pos, pos + 1 + more⟩ := by
        intro more
        rw [Span.shift, further, Nat.add_right_comm]
      cases skip with
      | succ k =>
          rw [lexFrom, lexFrom, further]
          exact ih k (pos + 1)
      | zero =>
          by_cases gap : isGap c = true
          · rw [lexFrom_gap gap, lexFrom_gap gap, further]
            exact ih 0 (pos + 1)
          · cases found : scan c cs with
            | stuck more =>
                simp only [lexFrom, if_neg gap, found, place]
                rfl
            | token t more =>
                rw [lexFrom_token gap found, lexFrom_token gap found, place, further, ih more (pos + 1)]
                cases lexFrom more (pos + 1) cs <;> rfl

theorem lexFrom_shift_eq_ok {d skip pos : Nat} {cs : List Char} {ls : List Lexeme} :
    lexFrom skip (pos + d) cs = .ok ls ↔ ∃ ls', lexFrom skip pos cs = .ok ls' ∧ ls'.map (Lexeme.shift d) = ls := by
  rw [lexFrom_shift, mapError_eq_ok]
  cases lexFrom skip pos cs with
  | error e => simp [Except.map]
  | ok ls' => simp [Except.map]

/-- The tokens of a text do not depend on where it stands. -/
theorem lexFrom_position {skip pos : Nat} {cs : List Char} {ls : List Lexeme} (h : lexFrom skip pos cs = .ok ls)
    (pos' : Nat) :
    ∃ ls', lexFrom skip pos' cs = .ok ls' ∧ ls'.map Lexeme.token = ls.map Lexeme.token := by
  rw [← Nat.zero_add pos] at h
  obtain ⟨start, atStart, rfl⟩ := lexFrom_shift_eq_ok.mp h
  refine ⟨start.map (Lexeme.shift pos'), ?_, ?_⟩
  · rw [← Nat.zero_add pos', lexFrom_shift_eq_ok, Nat.zero_add]
    exact ⟨start, atStart, rfl⟩
  · rw [List.map_map, List.map_map]
    rfl

/-! ## Paths -/

/-- Every token of a source is found by `scan` at some place of it. -/
theorem mem_lexFrom {skip pos : Nat} {cs : List Char} {ls : List Lexeme} (h : lexFrom skip pos cs = .ok ls) :
    ∀ l ∈ ls, ∃ c ds more, scan c ds = .token l.token more := by
  induction cs generalizing skip pos ls with
  | nil =>
      cases h
      simp
  | cons c cs ih =>
      cases skip with
      | succ k => exact ih h
      | zero =>
          rcases lexFrom_cases h with ⟨-, rest⟩ | ⟨-, t, more, later, found, rest, rfl⟩
          · exact ih rest
          · intro l hl
            rcases List.mem_cons.mp hl with rfl | hl
            · exact ⟨c, cs, more, found⟩
            · exact ih rest l hl

theorem nameToken_cases (cs : List Char) :
    (∃ b, nameToken cs = .literal (.bool b)) ∨ nameToken cs = .path (String.ofList cs) := by
  unfold nameToken
  split
  · exact .inl ⟨true, rfl⟩
  · split
    · exact .inl ⟨false, rfl⟩
    · exact .inr rfl

/-- **What `scan` finds**: a number, the name that stands there, a string or a symbol. A number with a fraction or an
    exponent is the float nearest to a decimal. -/
theorem scan_cases {c : Char} {cs : List Char} {t : Token} {more : Nat} (h : scan c cs = .token t more) :
    (∃ n, t = .literal (.int n)) ∨ (∃ d, t = .literal (.float (.ofDecimal false d))) ∨
      (isNameStart c = true ∧ t = nameToken ((c :: cs).take (dottedName (c :: cs))) ∧ more = dottedName (c :: cs) - 1) ∨
      (∃ s, t = .literal (.string s)) ∨ (∃ o, t = .op o) ∨ t = .openParen ∨ t = .closeParen := by
  unfold scan at h
  split at h
  · simp only [scanNumber] at h
    split at h
    · split at h
      · cases h
        exact .inl ⟨_, rfl⟩
      · cases h
    · cases h
      exact .inr (.inl ⟨_, rfl⟩)
  split at h
  · rename_i start
    simp only [scanName, Scanned.token.injEq] at h
    exact .inr (.inr (.inl ⟨start, h.1.symm, h.2.symm⟩))
  split at h
  · simp only [scanString] at h
    split at h
    · cases h
    · split at h
      · cases h
        exact .inr (.inr (.inr (.inl ⟨_, rfl⟩)))
      · cases h
  · exact .inr (.inr (.inr (.inr (scanSymbol_token h).1)))

/-- A path that `scan` finds is the dotted name that stands there. -/
theorem scan_path {c : Char} {cs : List Char} {s : String} {more : Nat} (h : scan c cs = .token (.path s) more) :
    s.toList = c :: cs.take more ∧ dottedName s.toList = s.toList.length := by
  rcases scan_cases h with ⟨_, eq⟩ | ⟨_, eq⟩ | ⟨start, found, rfl⟩ | ⟨_, eq⟩ | ⟨_, eq⟩ | eq | eq
  case inr.inr.inl =>
    have name : s = String.ofList ((c :: cs).take (dottedName (c :: cs))) := by
      rcases nameToken_cases ((c :: cs).take (dottedName (c :: cs))) with ⟨b, bool⟩ | path
      · cases found.trans bool
      · exact Token.path.inj (found.trans path)
    have length : dottedName (c :: cs) = dottedTail cs + 1 := by rw [dottedName, if_pos start]
    rw [name, String.toList_ofList]
    exact ⟨by rw [length]; rfl, dottedName_take (c :: cs)⟩
  all_goals cases eq

/-- **Every path token of a source is a path** that prints as the token. -/
theorem mem_lex_path {source : String} {ls : List Lexeme} (h : lex source = .ok ls) {l : Lexeme} (mem : l ∈ ls)
    {s : String} (path : l.token = .path s) :
    ∃ p, Path.parse s = .ok p ∧ p.segments = splitText '.' s ∧ p.text = s := by
  obtain ⟨c, ds, more, found⟩ := mem_lexFrom h l mem
  rw [path] at found
  obtain ⟨chars, dotted⟩ := scan_path found
  have parsed := Path.parse_dottedName dotted (by rw [chars]; exact List.cons_ne_nil _ _)
  rwa [String.ofList_toList] at parsed

/-! ## Texts of one token -/

/-- A text without tokens consists of gaps. -/
theorem isGap_of_lexFrom_nil {skip pos : Nat} {cs : List Char} (h : lexFrom skip pos cs = .ok []) :
    ∀ c ∈ cs.drop skip, isGap c = true := by
  induction cs generalizing skip pos with
  | nil => simp
  | cons c cs ih =>
      cases skip with
      | succ k => exact ih h
      | zero =>
          rcases lexFrom_cases h with ⟨gap, rest⟩ | ⟨_, _, _, _, _, _, eq⟩
          · exact List.forall_mem_cons.mpr ⟨gap, ih rest⟩
          · cases eq

/-- A text of one token is that token between gaps. -/
theorem lexFrom_singleton {pos : Nat} {cs : List Char} {l : Lexeme} (h : lexFrom 0 pos cs = .ok [l]) :
    ∃ before c ds more, cs = before ++ c :: ds ∧ scan c ds = .token l.token more ∧
      (∀ x ∈ before, isGap x = true) ∧ ∀ x ∈ ds.drop more, isGap x = true := by
  induction cs generalizing pos with
  | nil => cases h
  | cons c cs ih =>
      rcases lexFrom_cases h with ⟨gap, rest⟩ | ⟨_, t, more, later, found, rest, eq⟩
      · obtain ⟨before, d, ds, more, rfl, found, gaps, gaps'⟩ := ih rest
        exact ⟨c :: before, d, ds, more, rfl, found, List.forall_mem_cons.mpr ⟨gap, gaps⟩, gaps'⟩
      · obtain ⟨rfl, rfl⟩ := List.cons.inj eq
        exact ⟨[], c, cs, more, rfl, found, by simp, isGap_of_lexFrom_nil rest⟩

/-- **A text that is one path token is read as the path of the token**, whatever gaps there are around it. -/
theorem parse_of_lex_path {source s : String} {span : Span} (h : lex source = .ok [⟨.path s, span⟩]) :
    ∃ p, Path.parse s = .ok p ∧ p.text = s ∧ Path.parse source = .ok p := by
  obtain ⟨p, parsed, -, text⟩ := mem_lex_path h List.mem_cons_self rfl
  obtain ⟨before, c, ds, more, chars, found, gaps, gaps'⟩ := lexFrom_singleton h
  -- Gaps are blank, and reading a path trims blanks.
  have blank : ∀ x ∈ before ++ ds.drop more, x ≠ '.' ∧ isBlank x = true := by
    intro x mem
    have gap : isGap x = true := (List.mem_append.mp mem).elim (gaps x) (gaps' x)
    rcases isGap_cases gap with rfl | rfl | rfl | rfl <;> decide
  refine ⟨p, parsed, text, Path.parse_padded blank ?_ parsed⟩
  rw [chars, (scan_path found).1, List.cons_append, List.take_append_drop]

end Rulebook.Expression
