import Mathlib.Data.List.Chain
import Rulebook.Proofs.Fact
import Rulebook.Proofs.Path
import Rulebook.Template

/-!
# `Rulebook.Proofs.Template` — messages part by part

A template is written as a row of parts: text that stands for itself, and placeholders. Rendering goes over its
characters once. In plain text it finds no placeholder, since a dollar sign there is never followed by a brace, not
even where the text ends and a placeholder begins; and a placeholder is found where it was written, with the name that
was written in it. So the message is made of the same parts, each of them filled in on its own. What is filled in is
never looked at, whatever it looks like.

* `Name`, `Part`, `WellSpaced` — templates as they are written
* `Part.filled` — what becomes of a part
* `renderFrom_literal`, `renderFrom_hole` — rendering a part and what comes after it
* `render_parts` — a message is its parts, filled in one by one
-/

namespace Rulebook.Template

open Text

/-! ## Templates as they are written -/

/-- **A name in a placeholder**: an identifier, and parts after it that consist of letters, digits and underscores. -/
structure Name where
  head : Char
  tail : List Char
  parts : List (List Char)
  isHead : isNameStart head = true
  isTail : ∀ c ∈ tail, isNameChar c = true
  areParts : ∀ p ∈ parts, p ≠ [] ∧ ∀ c ∈ p, isNameChar c = true

/-- Parts with a dot before each of them. -/
def dotted (parts : List (List Char)) : List Char := parts.flatMap ('.' :: ·)

/-- A name as it is written. -/
def Name.chars (n : Name) : List Char := n.head :: n.tail ++ dotted n.parts

/-- The value that a name leads to: from the field of the identifier on, one step for each part. -/
def Name.value? (fact : Fact) (n : Name) : Option Value :=
  fact.fields.at? (String.ofList (n.head :: n.tail)) (n.parts.map String.ofList)

/-- **A part of a template.** -/
inductive Part where
  | literal (cs : List Char)
  | hole (name : Name)

/-- A part as it is written. -/
def Part.written : Part → List Char
  | literal cs => cs
  | hole n => '$' :: '\x7b' :: n.chars ++ ['\x7d']

/-- **What becomes of a part in a message.** A placeholder becomes the string that its name leads to, or the compact text
    of another value; where the name leads nowhere, it stays as it is. -/
def Part.filled (fact : Fact) : Part → List Char
  | literal cs => cs
  | hole n => (n.value? fact).elim (hole n).written fun v => (v.text?.getD v.text).toList

/-- Whether a part is a placeholder. -/
def Part.isHole : Part → Bool
  | literal _ => false
  | hole _ => true

/-- **The parts of a template are told apart**: plain text contains no beginning of a placeholder, and there is a
    placeholder between any two pieces of it. -/
structure WellSpaced (parts : List Part) : Prop where
  plain : ∀ cs, .literal cs ∈ parts → ¬ ['$', '\x7b'] <:+: cs
  apart : parts.IsChain fun p q => p.isHole ∨ q.isHole

theorem WellSpaced.tail {p : Part} {parts : List Part} (h : WellSpaced (p :: parts)) : WellSpaced parts where
  plain cs mem := h.plain cs (List.mem_cons_of_mem p mem)
  apart := h.apart.tail

/-- What stands after plain text is a placeholder or nothing. -/
theorem WellSpaced.next {cs : List Char} {parts : List Part} (h : WellSpaced (.literal cs :: parts)) :
    ∀ p ∈ parts.head?, p.isHole = true := by
  intro p hp
  exact ((List.isChain_cons.mp h.apart).1 p hp).resolve_left Bool.false_ne_true

/-! ## Names -/

theorem dottedTail_named {cs : List Char} (named : ∀ c ∈ cs, isNameChar c = true) (rest : List Char) :
    dottedTail (cs ++ rest) = cs.length + dottedTail rest := by
  induction cs with
  | nil => rw [List.nil_append, List.length_nil, Nat.zero_add]
  | cons c cs ih =>
      obtain ⟨first, others⟩ := List.forall_mem_cons.mp named
      rw [List.cons_append, dottedTail, first, Bool.true_or, if_pos rfl, ih others, List.length_cons]
      omega

/-- Parts with dots before them go on with a name: after each dot there is a character of a name. -/
theorem dottedTail_dotted {ps : List (List Char)} (parts : ∀ p ∈ ps, p ≠ [] ∧ ∀ c ∈ p, isNameChar c = true)
    (rest : List Char) : dottedTail (dotted ps ++ rest) = (dotted ps).length + dottedTail rest := by
  induction ps with
  | nil => rw [dotted, List.flatMap_nil, List.nil_append, List.length_nil, Nat.zero_add]
  | cons p ps ih =>
      obtain ⟨⟨some, named⟩, others⟩ := List.forall_mem_cons.mp parts
      have goesOn : (p ++ (dotted ps ++ rest)).head?.any isNameChar = true := by
        cases p with
        | nil => exact absurd rfl some
        | cons c cs => exact named c List.mem_cons_self
      have written : dotted (p :: ps) = '.' :: (p ++ dotted ps) := rfl
      rw [written, List.cons_append, List.append_assoc, dottedTail, goesOn, if_pos (by simp), dottedTail_named named,
        ih others, List.length_cons, List.length_append]
      omega

/-- A name ends where nothing goes on with it. -/
theorem Name.dottedName_chars (n : Name) {rest : List Char} (stop : dottedTail rest = 0) :
    dottedName (n.chars ++ rest) = n.chars.length := by
  rw [chars, List.cons_append, List.cons_append, dottedName, if_pos n.isHead, List.append_assoc,
    dottedTail_named n.isTail, dottedTail_dotted n.areParts, stop, List.length_cons, List.length_append]
  rfl

theorem pieces_dotted {p : List Char} {ps : List (List Char)} (noDot : ∀ q ∈ p :: ps, '.' ∉ q) :
    pieces '.' (p ++ dotted ps) = (p, ps) := by
  induction ps generalizing p with
  | nil => simpa [pieces, dotted] using pieces_append_left (noDot p List.mem_cons_self) []
  | cons q qs ih =>
      have written : dotted (q :: qs) = '.' :: (q ++ dotted qs) := rfl
      obtain ⟨first, others⟩ := List.forall_mem_cons.mp noDot
      rw [written, pieces_append_left first, pieces_separator, ih others, List.append_nil]

/-- **A name is read as the path of its parts.** -/
theorem Name.get_eq_value? (fact : Fact) (n : Name) :
    ∃ p, Path.parse (String.ofList n.chars) = .ok p ∧ fact.get p = n.value? fact := by
  have noDot : ∀ q ∈ (n.head :: n.tail) :: n.parts, '.' ∉ q := by
    intro q hq dot
    have named : isNameChar '.' = true := by
      rcases List.mem_cons.mp hq with rfl | hq
      · rcases List.mem_cons.mp dot with head | tail
        · exact isNameChar_of_isNameStart (head ▸ n.isHead)
        · exact n.isTail _ tail
      · exact (n.areParts q hq).2 _ dot
    exact (isNameChar_spec named).1 rfl
  have whole : dottedName n.chars = n.chars.length := by
    have stop : dottedTail [] = 0 := rfl
    have alone : dottedName (n.chars ++ []) = n.chars.length := n.dottedName_chars stop
    rwa [List.append_nil] at alone
  obtain ⟨p, parsed, segments, -⟩ := Path.parse_dottedName whole (List.cons_ne_nil _ _)
  refine ⟨p, parsed, ?_⟩
  rw [splitText, String.toList_ofList, chars, pieces_dotted noDot] at segments
  obtain ⟨first, rest⟩ := List.cons.inj segments
  rw [Fact.get_eq_at?, first, rest, Name.value?]

/-! ## Placeholders -/

/-- A placeholder begins with a brace after its dollar sign. -/
theorem placeholder?_eq_none {cs : List Char} (h : cs.head? ≠ some '\x7b') : placeholder? cs = none := by
  unfold placeholder?
  split
  · exact absurd rfl h
  · rfl

/-- A placeholder is found where it is written. -/
theorem placeholder?_name (n : Name) (rest : List Char) :
    placeholder? ('\x7b' :: (n.chars ++ '\x7d' :: rest)) = some n.chars := by
  have some : n.chars.length ≠ 0 := by simp [Name.chars]
  rw [placeholder?, n.dottedName_chars rfl, List.drop_left, List.take_left]
  exact if_pos ⟨some, rfl⟩

theorem valueText_eq (v : Value) : valueText v = v.text?.getD v.text := by
  cases v <;> rfl

/-- The name in a placeholder is replaced by what the placeholder becomes. -/
theorem replacement_name (fact : Fact) (n : Name) : replacement fact n.chars = (Part.hole n).filled fact := by
  obtain ⟨p, parsed, found⟩ := n.get_eq_value? fact
  simp only [replacement, parsed, found]
  cases value : n.value? fact with
  | none => simp [Part.filled, Part.written, value]
  | some v => simp [Part.filled, valueText_eq, value]

/-! ## Rendering -/

variable {fact : Fact}

/-- Characters that belong to a placeholder are passed over. -/
theorem renderFrom_skip (skip : Nat) (cs : List Char) : renderFrom fact skip cs = renderFrom fact 0 (cs.drop skip) := by
  induction skip generalizing cs with
  | zero => rfl
  | succ k ih =>
      cases cs with
      | nil => rfl
      | cons c cs =>
          rw [renderFrom, ih cs]
          rfl

/-- **Plain text is kept**, if what comes after it does not turn its last dollar sign into a placeholder. -/
theorem renderFrom_literal {cs rest : List Char} (plain : ¬ ['$', '\x7b'] <:+: cs) (after : rest.head? ≠ some '\x7b') :
    renderFrom fact 0 (cs ++ rest) = cs ++ renderFrom fact 0 rest := by
  induction cs with
  | nil => rfl
  | cons c cs ih =>
      have inner : ¬ ['$', '\x7b'] <:+: cs := fun inside => plain (inside.trans (List.suffix_cons c cs).isInfix)
      have nothing : (if c = '$' then placeholder? (cs ++ rest) else none) = none := by
        by_cases dollar : c = '$'
        · rw [if_pos dollar]
          apply placeholder?_eq_none
          cases cs with
          | nil => exact after
          | cons d ds =>
              intro brace
              have brace : d = '\x7b' := Option.some.inj brace
              exact plain (dollar ▸ brace ▸ List.IsPrefix.isInfix ⟨ds, rfl⟩)
        · exact if_neg dollar
      rw [List.cons_append, renderFrom, nothing]
      exact congrArg (c :: ·) (ih inner)

/-- **A placeholder is filled in**, and rendering goes on after it. -/
theorem renderFrom_hole (n : Name) (rest : List Char) :
    renderFrom fact 0 ((Part.hole n).written ++ rest) = (Part.hole n).filled fact ++ renderFrom fact 0 rest := by
  have written : (Part.hole n).written ++ rest = '$' :: ('\x7b' :: (n.chars ++ '\x7d' :: rest)) := by
    simp [Part.written]
  have passed : ('\x7b' :: (n.chars ++ '\x7d' :: rest)).drop (n.chars.length + 2) = rest := by
    rw [List.drop_succ_cons, List.drop_append]
    simp
  rw [written, renderFrom, if_pos rfl, placeholder?_name]
  show replacement fact n.chars ++ renderFrom fact (n.chars.length + 2) _ = _
  rw [replacement_name, renderFrom_skip, passed]

theorem head?_written {parts : List Part} (h : ∀ p ∈ parts.head?, p.isHole = true) :
    (parts.flatMap Part.written).head? ≠ some '\x7b' := by
  cases parts with
  | nil =>
      intro brace
      cases brace
  | cons p parts =>
      cases p with
      | literal cs => exact absurd (h _ rfl) Bool.false_ne_true
      | hole n =>
          intro brace
          cases brace

/-- **A message is its template with every part filled in on its own.** -/
theorem render_parts (fact : Fact) {parts : List Part} (spaced : WellSpaced parts) :
    render (String.ofList (parts.flatMap Part.written)) (some fact) =
      String.ofList (parts.flatMap (Part.filled fact)) := by
  have rendered : renderFrom fact 0 (parts.flatMap Part.written) = parts.flatMap (Part.filled fact) := by
    induction parts with
    | nil => rfl
    | cons p parts ih =>
        have others := ih spaced.tail
        rw [List.flatMap_cons, List.flatMap_cons, ← others]
        cases p with
        | literal cs => exact renderFrom_literal (spaced.plain cs List.mem_cons_self) (head?_written spaced.next)
        | hole n => exact renderFrom_hole n _
  rw [render, String.toList_ofList, rendered]

/-- A dollar sign before a placeholder, two placeholders in a row, and plain braces, on a record in which one name leads
    to a string that looks like a placeholder, one leads nowhere and one leads to a list. -/
theorem render_parts_lookalike :
    let name (head : Char) (parts : List (List Char)) (isHead : isNameStart head = true)
        (areParts : (parts.all fun p => !p.isEmpty && p.all isNameChar) = true) : Name :=
      ⟨head, [], parts, isHead, by simp, by simpa using areParts⟩
    let parts : List Part := [.literal ['$'], .hole (name 'a' [['1', '_']] rfl rfl),
      .hole (name 'b' [['x']] rfl rfl), .literal [' ', '\x7b', '\x7d', '$'], .hole (name 'n' [] rfl rfl),
      .literal ['é', '$']]
    let fact : Fact := ⟨0, none, [("a", .object [("1_", .string "$\x7bn\x7d")]), ("n", .array [.bool true, .string "s"])]⟩
    WellSpaced parts ∧
      String.ofList (parts.flatMap Part.written) = "$$\x7ba.1_\x7d$\x7bb.x\x7d \x7b\x7d$$\x7bn\x7dé$" ∧
      render "$$\x7ba.1_\x7d$\x7bb.x\x7d \x7b\x7d$$\x7bn\x7dé$" (some fact) =
        "$$\x7bn\x7d$\x7bb.x\x7d \x7b\x7d$[true,\"s\"]é$" := by
  intro name parts fact
  have spaced : WellSpaced parts := by
    constructor
    · intro cs mem
      simp only [parts, List.mem_cons, Part.literal.injEq, reduceCtorEq, List.not_mem_nil, false_or, or_false] at mem
      rcases mem with rfl | rfl | rfl <;> decide
    · decide
  have written : String.ofList (parts.flatMap Part.written) =
      "$$\x7ba.1_\x7d$\x7bb.x\x7d \x7b\x7d$$\x7bn\x7dé$" := rfl
  refine ⟨spaced, written, ?_⟩
  rw [← written, render_parts fact spaced]
  rfl

end Rulebook.Template
