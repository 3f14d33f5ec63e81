import Rulebook.Proofs.Expression.Cutting
import Rulebook.Proofs.Expression.Spelling

/-!
# `Rulebook.Proofs.Expression.Spacing` — tokens and the gaps between them

To read a source is to cut it: its tokens stand one after the other, and between them there is nothing but gaps. How large
the gaps are makes no difference. Each token is found again where its text stands alone, since nothing behind it was needed
to find it, and a gap behind it changes nothing either. So the texts of the tokens, put together again with any gaps
between them, are a source with the same tokens, however close they stood before.

* `Cuts`, `cuts_of_lexFrom` — what the tokens of a source leave over
* `HasTokens`, `HasTokens.append_gap` — texts with their tokens, and a gap between two of them
* `joined`, `hasTokens_joined` — the texts of tokens with gaps between them
* `lex_respaced` — **a source is its tokens**, whatever the gaps between them
-/

namespace Rulebook.Expression

/-- A text of gaps, empty or not. -/
def IsGaps (cs : List Char) : Prop := ∀ c ∈ cs, isGap c = true

/-! ## Tokens in their places -/

/-- A span has a position in it. -/
def Span.Covers (s : Span) (i : Nat) : Prop := s.start ≤ i ∧ i < s.stop

/-- How lexemes cut a text that stands at a position, but for the characters at its start that are to be skipped. -/
structure Cuts (skip pos : Nat) (cs : List Char) (ls : List Lexeme) : Prop where
  /-- Each of them takes a character at least. -/
  nonempty : ∀ l ∈ ls, l.span.start < l.span.stop
  /-- They stand in the text, behind what is skipped. -/
  inside : ∀ l ∈ ls, pos + skip ≤ l.span.start ∧ l.span.stop ≤ pos + cs.length
  /-- Each of them ends before the next one starts. -/
  ordered : ls.Pairwise fun l l' => l.span.stop ≤ l'.span.start
  /-- What none of them covers is gaps. -/
  gaps : ∀ i c, cs[i]? = some c → skip ≤ i → (∀ l ∈ ls, ¬ l.span.Covers (pos + i)) → isGap c = true

namespace Cuts

variable {skip pos : Nat} {c : Char} {cs : List Char} {ls : List Lexeme}

theorem nil : Cuts skip pos [] [] where
  nonempty := by simp
  inside := by simp
  ordered := .nil
  gaps := by simp

/-- A character that is skipped. -/
theorem skipped (h : Cuts skip (pos + 1) cs ls) : Cuts (skip + 1) pos (c :: cs) ls where
  nonempty := h.nonempty
  inside := by
    intro l mem
    have place := h.inside l mem
    rw [List.length_cons]
    omega
  ordered := h.ordered
  gaps := by
    intro i x found behind free
    obtain ⟨j, rfl⟩ := Nat.exists_eq_add_of_le' (Nat.le_trans (Nat.succ_le_succ (Nat.zero_le skip)) behind)
    rw [← Nat.add_assoc, Nat.add_right_comm] at free
    exact h.gaps j x found (Nat.le_of_succ_le_succ behind) free

/-- A gap before the next token. -/
theorem gap (gap : isGap c = true) (h : Cuts 0 (pos + 1) cs ls) : Cuts 0 pos (c :: cs) ls where
  nonempty := h.nonempty
  inside := by
    intro l mem
    have place := h.inside l mem
    rw [List.length_cons]
    omega
  ordered := h.ordered
  gaps := by
    intro i x found _ free
    cases i with
    | zero =>
        cases found
        exact gap
    | succ j =>
        rw [← Nat.add_assoc, Nat.add_right_comm] at free
        exact h.gaps j x found (Nat.zero_le j) free

/-- A token before the others, whose characters they leave out. -/
theorem token {more : Nat} (t : Token) (reach : more ≤ cs.length) (h : Cuts more (pos + 1) cs ls) :
    Cuts 0 pos (c :: cs) (⟨t, ⟨pos, pos + 1 + more⟩⟩ :: ls) where
  nonempty := by
    refine List.forall_mem_cons.mpr ⟨?_, h.nonempty⟩
    show pos < pos + 1 + more
    omega
  inside := by
    rw [List.length_cons]
    refine List.forall_mem_cons.mpr ⟨⟨Nat.le_refl _, ?_⟩, ?_⟩
    · show pos + 1 + more ≤ _
      omega
    · intro l mem
      have place := h.inside l mem
      omega
  ordered := List.pairwise_cons.mpr ⟨fun l mem => (h.inside l mem).1, h.ordered⟩
  gaps := by
    intro i x found _ free
    obtain ⟨beyond, others⟩ := List.forall_mem_cons.mp free
    -- The token covers its own characters, so the position lies behind them.
    have behind : more + 1 ≤ i := by
      refine Nat.le_of_not_lt fun within => beyond ⟨Nat.le_add_right pos i, ?_⟩
      show pos + i < pos + 1 + more
      omega
    obtain ⟨j, rfl⟩ := Nat.exists_eq_add_of_le' (Nat.le_trans (Nat.succ_le_succ (Nat.zero_le more)) behind)
    rw [← Nat.add_assoc, Nat.add_right_comm] at others
    exact h.gaps j x found (Nat.le_of_succ_le_succ behind) others

end Cuts

/-- **Reading a text cuts it**: it leaves nothing over but gaps. -/
theorem cuts_of_lexFrom {skip pos : Nat} {cs : List Char} {ls : List Lexeme} (h : lexFrom skip pos cs = .ok ls) :
    Cuts skip pos cs ls := by
  induction cs generalizing skip pos ls with
  | nil =>
      cases h
      exact .nil
  | cons c cs ih =>
      cases skip with
      | succ k => exact (ih h).skipped
      | zero =>
          rcases lexFrom_cases h with ⟨gap, rest⟩ | ⟨_, t, more, later, found, rest, rfl⟩
          · exact (ih rest).gap gap
          · exact (ih rest).token t (scan_length_le found)

/-! ## Texts and their tokens -/

/-- A text is read as tokens. -/
def HasTokens (cs : List Char) (ts : List Token) : Prop := ∃ ls, lexFrom 0 0 cs = .ok ls ∧ tokens ls = ts

namespace HasTokens

variable {cs ds gs : List Char} {ts us : List Token} {g : Char}

/-- **Two texts with a gap between them** have the tokens of both. -/
theorem append_gap (left : HasTokens cs ts) (gap : isGap g = true) (right : HasTokens ds us) :
    HasTokens (cs ++ g :: ds) (ts ++ us) := by
  obtain ⟨ls, first, rfl⟩ := left
  obtain ⟨ls', second, rfl⟩ := right
  obtain ⟨moved, further, same⟩ := lexFrom_position second (0 + cs.length + 1)
  refine ⟨ls ++ moved, ?_, ?_⟩
  · rw [lexFrom_append_gap gap ds (Nat.zero_le _) first, further]
    rfl
  · rw [tokens, List.map_append, same]

theorem nil : HasTokens [] [] := ⟨[], rfl, rfl⟩

/-- Gaps before a text. -/
theorem after_gaps (gaps : IsGaps gs) (h : HasTokens ds us) : HasTokens (gs ++ ds) us := by
  induction gs with
  | nil => exact h
  | cons g gs ih =>
      obtain ⟨gap, gaps⟩ := List.forall_mem_cons.mp gaps
      exact nil.append_gap gap (ih gaps)

/-- Gaps behind a text. -/
theorem before_gaps (h : HasTokens cs ts) (gaps : IsGaps gs) : HasTokens (cs ++ gs) ts := by
  cases gs with
  | nil => rwa [List.append_nil]
  | cons g gs =>
      obtain ⟨gap, gaps⟩ := List.forall_mem_cons.mp gaps
      have none : HasTokens gs [] := by simpa using nil.after_gaps gaps
      simpa using h.append_gap gap none

/-- Gaps between two texts, of which there must be one. -/
theorem append_gaps (left : HasTokens cs ts) (some : gs ≠ []) (gaps : IsGaps gs) (right : HasTokens ds us) :
    HasTokens (cs ++ gs ++ ds) (ts ++ us) := by
  cases gs with
  | nil => exact absurd rfl some
  | cons g gs =>
      obtain ⟨gap, gaps⟩ := List.forall_mem_cons.mp gaps
      rw [List.append_assoc]
      exact left.append_gap gap (right.after_gaps gaps)

end HasTokens

/-- **The text of a token is read as this token** where it stands alone. -/
theorem hasTokens_of_mem {source : String} {ls : List Lexeme} (lexed : lex source = .ok ls) {l : Lexeme}
    (mem : l ∈ ls) : HasTokens (l.span.of source.toList) [l.token] := by
  obtain ⟨before, after, rfl⟩ := List.append_of_mem mem
  rw [List.append_cons] at lexed
  obtain ⟨part, read, moved⟩ := lex_part lexed rfl rfl
  rw [lex, String.toList_ofList] at read
  obtain ⟨l', rfl, same⟩ := List.map_eq_singleton_iff.mp moved
  refine ⟨[l'], read, ?_⟩
  rw [← same]
  rfl

/-! ## Respacing -/

/-- Texts one after the other, the first of them with `between 0` behind it, and so on up to the last, which has nothing
    behind it. -/
def joined (between : Nat → List Char) : List (List Char) → List Char
  | [] => []
  | [text] => text
  | text :: texts => text ++ between 0 ++ joined (fun i => between (i + 1)) texts

theorem hasTokens_joined {between : Nat → List Char} (spaced : ∀ i, between i ≠ [] ∧ IsGaps (between i))
    {ls : List Lexeme} {text : Lexeme → List Char} (alone : ∀ l ∈ ls, HasTokens (text l) [l.token]) :
    HasTokens (joined between (ls.map text)) (tokens ls) := by
  induction ls generalizing between with
  | nil => exact .nil
  | cons l ls ih =>
      obtain ⟨first, others⟩ := List.forall_mem_cons.mp alone
      have rest := ih (fun i => spaced (i + 1)) others
      cases ls with
      | nil => exact first
      | cons l' ls => exact first.append_gaps (spaced 0).1 (spaced 0).2 rest

/-- **A source is its tokens, whatever the gaps between them.** The tokens of a source are not empty, stand one after the
    other and leave nothing over but spaces, tabs and line ends. The texts of the tokens with any such gaps between them,
    of which each is one character at least, and with any before the first and behind the last, or none, are a source that
    can be read, and it has the same tokens. -/
theorem lex_respaced {source : String} {ls : List Lexeme} (lexed : lex source = .ok ls) :
    Cuts 0 0 source.toList ls ∧
    ∀ (between : Nat → List Char) (before after : List Char), (∀ i, between i ≠ [] ∧ IsGaps (between i)) →
      IsGaps before → IsGaps after →
      ∃ ls', lex (String.ofList (before ++ joined between (ls.map fun l => l.span.of source.toList) ++ after)) = .ok ls' ∧
        tokens ls' = tokens ls := by
  refine ⟨cuts_of_lexFrom lexed, fun between before after spaced gaps gaps' => ?_⟩
  have texts := hasTokens_joined spaced fun l mem => hasTokens_of_mem lexed mem
  rw [lex, String.toList_ofList]
  exact (texts.after_gaps gaps).before_gaps gaps'

/-- A number before an exponent that is none, a name, an operator and a string that has a gap, an escape and the other
    quote in it, all without gaps; and the same tokens on lines of their own. -/
theorem lex_respaced_close :
    let source := "1e+'a\\' \"b'<=c.0"
    let ls : List Lexeme := [⟨.literal (.int 1), ⟨0, 1⟩⟩, ⟨.path "e", ⟨1, 2⟩⟩, ⟨.op .add, ⟨2, 3⟩⟩,
      ⟨.literal (.string "a' \"b"), ⟨3, 11⟩⟩, ⟨.op .le, ⟨11, 13⟩⟩, ⟨.path "c.0", ⟨13, 16⟩⟩]
    lex source = .ok ls ∧ Cuts 0 0 source.toList ls ∧
      ∃ ls', lex "\t1\r\ne\r\n+\r\n'a\\' \"b'\r\n<=\r\nc.0\n" = .ok ls' ∧ tokens ls' = tokens ls := by
  intro source ls
  have lexed : lex source = .ok ls := toOption_eq_some_iff.mp (by decide +kernel)
  obtain ⟨cuts, respaced⟩ := lex_respaced lexed
  have lines := respaced (fun _ => ['\r', '\n']) ['\t'] ['\n'] (fun _ => ⟨by decide, by simp [IsGaps, isGap]⟩)
    (by simp [IsGaps, isGap]) (by simp [IsGaps, isGap])
  have text : String.ofList (['\t'] ++ joined (fun _ => ['\r', '\n']) (ls.map fun l => l.span.of source.toList) ++ ['\n']) =
      "\t1\r\ne\r\n+\r\n'a\\' \"b'\r\n<=\r\nc.0\n" := by decide +kernel
  rw [text] at lines
  exact ⟨lexed, cuts, lines⟩

end Rulebook.Expression
