import Rulebook.Proofs.Expression.Lexing

/-!
# `Rulebook.Proofs.Expression.Cutting` — the tokens of a part of a source

A token is the longest one at its place. So it is found all the same where the text ends with it: what came after it
could not make it longer, and to leave it out cannot make it shorter. A part of a source that starts with a token and
ends with one therefore has the tokens that the source has there, and only their places are counted anew.

* `scan_of_append` — a token is found in the same way where the text ends with it
* `lexFrom_from`, `lexFrom_upto` — a source read from one of its tokens on, and up to one of them
* `lex_part` — a part of a source from one token to another
-/

namespace Rulebook.Expression

open Text

/-! ## Numbers -/

/-- Characters taken from the start of a text are those taken from a part of it that they do not go beyond. -/
theorem takeWhile_of_append {p : Char → Bool} {cs es : List Char}
    (bound : ((cs ++ es).takeWhile p).length ≤ cs.length) : (cs ++ es).takeWhile p = cs.takeWhile p := by
  induction cs with
  | nil => exact List.eq_nil_of_length_eq_zero (Nat.le_zero.mp bound)
  | cons c cs ih =>
      rw [List.cons_append] at bound ⊢
      by_cases taken : p c = true
      · rw [List.takeWhile_cons_of_pos taken] at bound ⊢
        rw [List.takeWhile_cons_of_pos taken, ih (Nat.le_of_succ_le_succ bound)]
      · rw [List.takeWhile_cons_of_neg taken, List.takeWhile_cons_of_neg taken]

theorem fractionDigits_other {c : Char} (other : c ≠ '.') (cs : List Char) : fractionDigits (c :: cs) = [] := by
  unfold fractionDigits
  split
  · rename_i eq
    exact absurd (List.cons.inj eq).1 other
  · rfl

/-- A fraction is found in the same way where the text ends with it. -/
theorem fractionDigits_of_append {cs es : List Char} (bound : fractionExtent (cs ++ es) ≤ cs.length) :
    fractionDigits (cs ++ es) = fractionDigits cs := by
  have digits : fractionDigits (cs ++ es) ≠ [] → (fractionDigits (cs ++ es)).length + 1 ≤ cs.length := by
    intro some
    rwa [fractionExtent, if_neg (mt List.isEmpty_iff.mp some)] at bound
  cases cs with
  | nil =>
      cases found : fractionDigits ([] ++ es) with
      | nil => rfl
      | cons d ds => exact absurd (digits (by rw [found]; exact List.cons_ne_nil d ds)) (Nat.not_succ_le_zero _)
  | cons c cs =>
      rw [List.cons_append] at digits ⊢
      by_cases point : c = '.'
      · subst point
        refine takeWhile_of_append ?_
        by_cases none : (cs ++ es).takeWhile Char.isDigit = []
        · rw [none]
          exact Nat.zero_le _
        · exact Nat.le_of_succ_le_succ (digits none)
      · rw [fractionDigits_other point, fractionDigits_other point]

/-- An exponent has a letter and a digit. -/
theorem exponent?_length_ge {cs : List Char} {e : Exponent} (h : exponent? cs = some e) : 2 ≤ e.length := by
  cases cs with
  | nil => cases h
  | cons c cs =>
      rw [exponent?_cons] at h
      dsimp only at h
      split at h
      · split at h
        · cases h
        · rename_i digits
          cases h
          have some := List.length_pos_iff.mpr (mt List.isEmpty_iff.mpr digits)
          show 2 ≤ 1 + _ + List.length _
          omega
      · cases h

/-- An exponent is found in the same way where the text ends with it. -/
theorem exponent?_of_append {cs es : List Char} (bound : exponentExtent (cs ++ es) ≤ cs.length) :
    exponent? (cs ++ es) = exponent? cs := by
  have reach : ∀ {e}, exponent? (cs ++ es) = some e → 2 ≤ e.length ∧ e.length ≤ cs.length := by
    intro e found
    rw [exponentExtent, found] at bound
    exact ⟨exponent?_length_ge found, bound⟩
  have short : cs.length < 2 → exponent? (cs ++ es) = none := by
    intro short
    cases found : exponent? (cs ++ es) with
    | none => rfl
    | some e =>
        obtain ⟨low, high⟩ := reach found
        omega
  cases cs with
  | nil => exact short (Nat.zero_lt_two)
  | cons c cs =>
      cases cs with
      | nil =>
          rw [short (Nat.lt_succ_self 1), exponent?_cons]
          split <;> rfl
      | cons d cs =>
          by_cases letter : c = 'e' ∨ c = 'E'
          · have digits : ((exponentSign (d :: cs)).2.2 ++ es).takeWhile Char.isDigit =
                (exponentSign (d :: cs)).2.2.takeWhile Char.isDigit := by
              refine takeWhile_of_append ?_
              by_cases none : ((exponentSign (d :: cs)).2.2 ++ es).takeWhile Char.isDigit = []
              · rw [none]
                exact Nat.zero_le _
              · have sign := exponentSign_length (d :: cs)
                have some := exponent?_cons c (d :: cs ++ es)
                rw [if_pos letter, exponentSign_cons_append] at some
                dsimp only at some
                rw [if_neg (mt List.isEmpty_iff.mp none)] at some
                have high : 1 + _ + _ ≤ (d :: cs).length + 1 := (reach some).2
                omega
            rw [List.cons_append, exponent?_cons, exponent?_cons, exponentSign_cons_append]
            simp only [digits]
          · rw [List.cons_append, exponent?_cons, exponent?_cons, if_neg letter, if_neg letter]

/-- A number is found in the same way where the text ends with it. -/
theorem scanNumber_of_append {cs es : List Char} (bound : numberExtent (cs ++ es) ≤ cs.length) :
    scanNumber (cs ++ es) = scanNumber cs := by
  have whole : (cs ++ es).takeWhile Char.isDigit = cs.takeWhile Char.isDigit := by
    refine takeWhile_of_append (Nat.le_trans ?_ bound)
    rw [numberExtent, Nat.add_assoc]
    exact Nat.le_add_right _ _
  have inside : (cs.takeWhile Char.isDigit).length ≤ cs.length := (List.takeWhile_prefix _).length_le
  simp only [numberExtent, whole, List.drop_append_of_le_length inside] at bound
  generalize rest : cs.drop (cs.takeWhile Char.isDigit).length = rs at bound
  have length : (cs.takeWhile Char.isDigit).length + rs.length = cs.length := by
    rw [← rest, List.length_drop, Nat.add_sub_cancel' inside]
  have fraction : fractionDigits (rs ++ es) = fractionDigits rs := fractionDigits_of_append (by omega)
  have points : fractionExtent (rs ++ es) = fractionExtent rs := by rw [fractionExtent, fractionExtent, fraction]
  rw [points] at bound
  have inside' : fractionExtent rs ≤ rs.length := by omega
  rw [List.drop_append_of_le_length inside'] at bound
  have exponent : exponent? (rs.drop (fractionExtent rs) ++ es) = exponent? (rs.drop (fractionExtent rs)) := by
    refine exponent?_of_append ?_
    rw [List.length_drop]
    omega
  simp only [scanNumber, whole, List.drop_append_of_le_length inside, rest, fraction]
  rw [← fractionExtent, List.drop_append_of_le_length inside', exponent]

/-! ## Names, strings and symbols -/

/-- A name goes on in the same way where the text ends with it. -/
theorem dottedTail_of_append {cs es : List Char} (bound : dottedTail (cs ++ es) ≤ cs.length) :
    dottedTail (cs ++ es) = dottedTail cs := by
  induction cs with
  | nil => exact Nat.le_zero.mp bound
  | cons c cs ih =>
      cases cs with
      | nil =>
          -- If a dot went on with what comes next, the name would hold both.
          rw [List.singleton_append, List.length_singleton] at bound
          rw [List.singleton_append]
          cases es with
          | nil => rfl
          | cons e es => grind [dottedTail]
      | cons d cs =>
          have next : (d :: cs ++ es).head? = (d :: cs).head? := rfl
          rw [List.cons_append, dottedTail, next] at bound ⊢
          rw [dottedTail]
          split
          · rename_i goes
            rw [if_pos goes] at bound
            rw [ih (Nat.le_of_succ_le_succ bound)]
          · rfl

theorem scanName_of_append {c : Char} (start : isNameStart c = true) {cs es : List Char} {t : Token} {more : Nat}
    (h : scanName (c :: (cs ++ es)) = .token t more) (bound : more ≤ cs.length) :
    scanName (c :: cs) = .token t more := by
  simp only [scanName, dottedName, if_pos start, Nat.add_sub_cancel, List.take_succ_cons] at h ⊢
  have reach : dottedTail (cs ++ es) = more := by
    cases h
    rfl
  have same : dottedTail (cs ++ es) = dottedTail cs := dottedTail_of_append (reach ▸ bound)
  rw [List.take_append_of_le_length (reach ▸ bound), same] at h
  exact h

/-- A string that is closed within a text is closed there whatever comes after it. -/
theorem stringExtent_of_append {quote : Char} {cs es : List Char} (closed : (stringExtent quote (cs ++ es)).1 = true)
    (bound : (stringExtent quote (cs ++ es)).2 ≤ cs.length) :
    stringExtent quote (cs ++ es) = stringExtent quote cs := by
  induction cs using stringExtent.induct quote with
  | case1 =>
      have positive := (stringExtent_append closed []).2.1
      exact absurd positive (Nat.not_lt_of_le bound)
  | case2 cs => rw [List.cons_append, stringExtent_quote, stringExtent_quote]
  | case3 other =>
      cases es with
      | nil => rfl
      | cons e es =>
          -- A backslash takes the next character with it, and that is beyond the text.
          by_cases line : e = '\n'
          · simp [stringExtent, other, line] at closed
          · rw [List.cons_append, List.nil_append, stringExtent_escape other line] at bound
            have beyond : (stringExtent quote es).2 + 2 ≤ 1 := bound
            omega
  | case4 cs other => simp [stringExtent, other] at closed
  | case5 c cs line _ _ _ other ih =>
      rw [List.cons_append, List.cons_append, stringExtent_escape other line] at closed bound ⊢
      rw [stringExtent_escape other line, ih closed (by simpa using bound)]
  | case6 c cs other plain _ _ _ ih =>
      rw [List.cons_append, stringExtent_plain other plain] at closed bound ⊢
      rw [stringExtent_plain other plain, ih closed (by simpa using bound)]

theorem scanString_of_append {quote : Char} {cs es : List Char} {t : Token} {more : Nat}
    (h : scanString quote (cs ++ es) = .token t more) (bound : more ≤ cs.length) :
    scanString quote cs = .token t more := by
  unfold scanString at h ⊢
  split at h
  · cases h
  · rename_i n extent
    have reach : n = more := by
      split at h <;> cases h
      rfl
    subst reach
    have same := stringExtent_of_append (by rw [extent]) (by rw [extent]; exact bound)
    rw [List.take_append_of_le_length (Nat.le_trans (Nat.sub_le n 1) bound)] at h
    rw [← same, extent]
    exact h

theorem scanSymbol_of_append {c : Char} {cs es : List Char} {t : Token} {more : Nat}
    (h : scanSymbol c (cs ++ es) = .token t more) (bound : more ≤ cs.length) : scanSymbol c cs = .token t more := by
  cases cs with
  | nil =>
      -- A symbol of one character is not followed by an equals sign, or it does not matter.
      by_cases equals : es.head? = some '='
      · rw [List.nil_append] at h
        grind [scanSymbol]
      · simp only [scanSymbol, List.nil_append, equals] at h
        exact h
  | cons d cs => exact h

/-- **A token is found in the same way where the text ends with it.** -/
theorem scan_of_append {c : Char} {cs es : List Char} {t : Token} {more : Nat}
    (h : scan c (cs ++ es) = .token t more) (bound : more ≤ cs.length) : scan c cs = .token t more := by
  unfold scan at h ⊢
  split
  · rename_i digit
    rw [if_pos digit, ← List.cons_append] at h
    have extent := scanNumber_extent h
    rw [scanNumber_of_append] at h
    · exact h
    · rw [List.length_cons]
      omega
  · rename_i digit
    rw [if_neg digit] at h
    split
    · rename_i start
      rw [if_pos start] at h
      exact scanName_of_append start h bound
    · rename_i start
      rw [if_neg start] at h
      split
      · rename_i quote
        rw [if_pos quote] at h
        exact scanString_of_append h bound
      · rename_i quote
        rw [if_neg quote] at h
        exact scanSymbol_of_append h bound

/-! ## Parts of a source -/

/-- A text that is passed over has no tokens. -/
theorem lexFrom_of_length_le {skip : Nat} {cs : List Char} (h : cs.length ≤ skip) (pos : Nat) :
    lexFrom skip pos cs = .ok [] := by
  induction cs generalizing skip pos with
  | nil => rfl
  | cons c cs ih =>
      obtain ⟨k, rfl⟩ := Nat.exists_eq_add_of_le' (Nat.le_trans (Nat.succ_pos cs.length) h)
      exact ih (Nat.le_of_succ_le_succ h) (pos + 1)

/-- **A source from one of its tokens on** has this token and those after it. -/
theorem lexFrom_from {skip pos : Nat} {cs : List Char} {before after : List Lexeme} {l : Lexeme}
    (h : lexFrom skip pos cs = .ok (before ++ l :: after)) :
    ∃ k, l.span.start = pos + k ∧ lexFrom 0 (pos + k) (cs.drop k) = .ok (l :: after) := by
  induction cs generalizing skip pos before with
  | nil => cases before <;> cases h
  | cons c cs ih =>
      have further : ∀ {skip : Nat} {before : List Lexeme}, lexFrom skip (pos + 1) cs = .ok (before ++ l :: after) →
          ∃ k, l.span.start = pos + k ∧ lexFrom 0 (pos + k) ((c :: cs).drop k) = .ok (l :: after) := by
        intro skip before rest
        obtain ⟨k, start, read⟩ := ih rest
        rw [Nat.add_assoc, Nat.add_comm 1 k] at start read
        exact ⟨k + 1, start, read⟩
      cases skip with
      | succ k => exact further h
      | zero =>
          rcases lexFrom_cases h with ⟨-, rest⟩ | ⟨-, t, more, later, -, rest, eq⟩
          · exact further rest
          · cases before with
            | nil =>
                obtain ⟨rfl, rfl⟩ := List.cons.inj eq
                exact ⟨0, rfl, h⟩
            | cons first before =>
                obtain ⟨-, rfl⟩ := List.cons.inj eq
                exact further rest

/-- **A source up to one of its tokens** has this token and those before it. -/
theorem lexFrom_upto {skip pos : Nat} {cs : List Char} {before after : List Lexeme} {l : Lexeme}
    (h : lexFrom skip pos cs = .ok (before ++ l :: after)) (bound : skip ≤ cs.length) :
    ∃ m, l.span.stop = pos + m ∧ skip ≤ m ∧ m ≤ cs.length ∧
      lexFrom skip pos (cs.take m) = .ok (before ++ [l]) := by
  induction cs generalizing skip pos before with
  | nil => cases before <;> cases h
  | cons c cs ih =>
      cases skip with
      | succ k =>
          obtain ⟨m, stop, reach, inside, read⟩ := ih h (Nat.le_of_succ_le_succ bound)
          exact ⟨m + 1, by omega, Nat.succ_le_succ reach, Nat.succ_le_succ inside, read⟩
      | zero =>
          rcases lexFrom_cases h with ⟨gap, rest⟩ | ⟨token, t, more, later, found, rest, eq⟩
          · obtain ⟨m, stop, -, inside, read⟩ := ih rest (Nat.zero_le _)
            refine ⟨m + 1, by omega, Nat.zero_le _, Nat.succ_le_succ inside, ?_⟩
            rw [List.take_succ_cons, lexFrom_gap gap]
            exact read
          · have length : more ≤ cs.length := scan_length_le found
            -- The token is found again in the part, because it is found within it.
            have again : ∀ m, more ≤ m → m ≤ cs.length → scan c (cs.take m) = .token t more := by
              intro m reach inside
              rw [← List.take_append_drop m cs] at found
              refine scan_of_append found ?_
              rw [List.length_take, Nat.min_eq_left inside]
              exact reach
            cases before with
            | nil =>
                obtain ⟨rfl, rfl⟩ := List.cons.inj eq
                have stop : pos + 1 + more = pos + (more + 1) := by omega
                refine ⟨more + 1, stop, Nat.zero_le _, Nat.succ_le_succ length, ?_⟩
                have nothing := lexFrom_of_length_le (List.length_take_le more cs) (pos + 1)
                rw [List.take_succ_cons, lexFrom_token token (again more (Nat.le_refl more) length), nothing]
                rfl
            | cons first before =>
                obtain ⟨rfl, rfl⟩ := List.cons.inj eq
                obtain ⟨m, stop, reach, inside, read⟩ := ih rest length
                refine ⟨m + 1, by omega, Nat.zero_le _, Nat.succ_le_succ inside, ?_⟩
                rw [List.take_succ_cons, lexFrom_token token (again m reach inside), read]
                rfl

/-- **A part of a source from one of its tokens to another** has the tokens that stand there, at places that are counted
    from the start of the part. -/
theorem lex_part {source : String} {before used after : List Lexeme} {first last : Lexeme}
    (h : lex source = .ok (before ++ used ++ after)) (starts : used.head? = some first)
    (ends : used.getLast? = some last) :
    ∃ ls, lex (String.ofList (Span.of ⟨first.span.start, last.span.stop⟩ source.toList)) = .ok ls ∧
      ls.map (Lexeme.shift first.span.start) = used := by
  obtain ⟨rest, rfl⟩ := List.head?_eq_some_iff.mp starts
  obtain ⟨init, whole⟩ := List.getLast?_eq_some_iff.mp ends
  rw [lex, List.append_assoc, List.cons_append] at h
  obtain ⟨k, start, fromFirst⟩ := lexFrom_from h
  rw [Nat.zero_add] at start fromFirst
  rw [← List.cons_append, whole, List.append_assoc, List.singleton_append] at fromFirst
  obtain ⟨m, stop, -, -, uptoLast⟩ := lexFrom_upto fromFirst (Nat.zero_le _)
  have part : Span.of ⟨first.span.start, last.span.stop⟩ source.toList = (source.toList.drop k).take m := by
    rw [Span.of, start, stop, Nat.add_sub_cancel_left]
  rw [lex, part, String.toList_ofList, start, whole]
  have read : lexFrom 0 (0 + k) ((source.toList.drop k).take m) = .ok (init ++ [last]) := by
    rw [Nat.zero_add]
    exact uptoLast
  exact lexFrom_shift_eq_ok.mp read

end Rulebook.Expression
