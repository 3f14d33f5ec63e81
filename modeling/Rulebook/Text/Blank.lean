/-!
# `Rulebook.Text.Blank` — blank characters and trimming

A character is blank when it has Unicode's `White_Space` property. Rule names, field paths, operators
and recipients are trimmed of blanks at both ends.

## Contents
* `isBlank` — the 25 characters of the property
* `trim` — a text without the blanks at its two ends
* `trimmed_trimmed`, `trimmed_eq_nil_iff` — trimming twice is trimming once; only blanks trim to nothing
-/

namespace Rulebook.Text

/-! ## The character class -/

/-- The characters of Unicode's `White_Space` property. -/
def isBlank (c : Char) : Bool :=
  let n := c.toNat
  (0x09 ≤ n && n ≤ 0x0D) || n == 0x20 || n == 0x85 || n == 0xA0 || n == 0x1680 ||
  (0x2000 ≤ n && n ≤ 0x200A) || n == 0x2028 || n == 0x2029 || n == 0x202F || n == 0x205F ||
  n == 0x3000

/-! ## Trimming -/

/-- `cs` without the blanks at its start. -/
def trimStart (cs : List Char) : List Char := cs.dropWhile isBlank

/-- `cs` without the blanks at its end. -/
def trimEnd (cs : List Char) : List Char := (cs.reverse.dropWhile isBlank).reverse

/-- `cs` without the blanks at its two ends. -/
def trimmed (cs : List Char) : List Char := trimEnd (trimStart cs)

/-- A text without the blanks at its two ends. -/
def trim (s : String) : String := String.ofList (trimmed s.toList)

/-- A text that holds no character but blanks. -/
def isBlankText (s : String) : Bool := (trimmed s.toList).isEmpty

/-! ## What trimming leaves -/

theorem dropWhile_eq_self {p : Char → Bool} {c : Char} {cs : List Char} (h : p c = false) :
    (c :: cs).dropWhile p = c :: cs := by
  simp [h]

theorem dropWhile_nil_or_head {p : Char → Bool} (cs : List Char) :
    cs.dropWhile p = [] ∨ ∃ c r, cs.dropWhile p = c :: r ∧ p c = false := by
  induction cs with
  | nil => exact .inl rfl
  | cons c cs ih =>
    by_cases h : p c
    · rw [List.dropWhile_cons, if_pos h]; exact ih
    · exact .inr ⟨c, cs, by simp [h], by simpa using h⟩

theorem dropWhile_dropWhile (p : Char → Bool) (cs : List Char) :
    (cs.dropWhile p).dropWhile p = cs.dropWhile p := by
  rcases dropWhile_nil_or_head (p := p) cs with h | ⟨c, r, h, hc⟩
  · rw [h]; rfl
  · rw [h, dropWhile_eq_self hc]

/-- Cutting blanks at the end keeps a first character that is not blank. -/
theorem trimEnd_cons {c : Char} (h : isBlank c = false) (cs : List Char) :
    trimEnd (c :: cs) = c :: trimEnd cs := by
  have key : ∀ l : List Char, (l ++ [c]).dropWhile isBlank = l.dropWhile isBlank ++ [c] := by
    intro l
    induction l with
    | nil => simp [h]
    | cons d l ih =>
      by_cases hd : isBlank d
      · simpa [List.dropWhile_cons, hd] using ih
      · simp [hd]
  simp [trimEnd, key]

theorem trimEnd_trimEnd (cs : List Char) : trimEnd (trimEnd cs) = trimEnd cs := by
  simp [trimEnd, dropWhile_dropWhile]

/-- Trimming twice is trimming once. -/
theorem trimmed_trimmed (cs : List Char) : trimmed (trimmed cs) = trimmed cs := by
  rcases dropWhile_nil_or_head (p := isBlank) cs with h | ⟨c, r, h, hc⟩
  · simp [trimmed, trimStart, h, trimEnd]
  · have hs : trimmed cs = c :: trimEnd r := by simp only [trimmed, trimStart, h, trimEnd_cons hc]
    rw [hs]
    simp only [trimmed, trimStart, dropWhile_eq_self hc, trimEnd_cons hc, trimEnd_trimEnd]

/-- Trimming invents no character. -/
theorem mem_of_mem_trimmed {c : Char} {cs : List Char} (h : c ∈ trimmed cs) : c ∈ cs := by
  have h1 : c ∈ (trimStart cs).reverse :=
    (List.dropWhile_sublist _).subset (List.mem_reverse.1 h)
  exact (List.dropWhile_sublist _).subset (List.mem_reverse.1 h1)

theorem dropWhile_eq_nil_iff {p : Char → Bool} {cs : List Char} :
    cs.dropWhile p = [] ↔ ∀ c ∈ cs, p c = true := by
  induction cs with
  | nil => simp
  | cons c cs ih =>
    by_cases h : p c
    · rw [List.dropWhile_cons, if_pos h, ih]; simp [h]
    · simp [h]

/-- Only a text of blanks trims to nothing. -/
theorem trimmed_eq_nil_iff {cs : List Char} : trimmed cs = [] ↔ ∀ c ∈ cs, isBlank c = true := by
  rw [← dropWhile_eq_nil_iff]
  constructor
  · intro h
    rcases dropWhile_nil_or_head (p := isBlank) cs with h' | ⟨c, r, h', hc⟩
    · exact h'
    · simp [trimmed, trimStart, h', trimEnd_cons hc] at h
  · intro h
    simp [trimmed, trimStart, h, trimEnd]

end Rulebook.Text
