import Rulebook.Proofs.Path

/-!
# `Rulebook.Proofs.Path.Texts` — which texts are paths, and what is printed for them

A text is cut at its dots and each piece is trimmed. A blank piece leaves nothing, and no segment is empty, so every piece
has to have a character in it that is not blank. Nothing else can go wrong: trimming brings no dot into a piece, and there
is nothing to trim a second time. For the same reasons nothing is lost when a path is printed: its text is cut at the dots
that were put between the segments and at no others, and the pieces are the segments as they are.

* `Text.IsPiece`, `Text.mem_pieces_iff` — what stands between two separators, said without cutting
* `Text.Visible`, `IsPathText` — what it takes for a text to be a path
* `Path.parse_isOk_iff`, `Path.segments_of_parse` — the texts of paths, and their segments
* `Path.printed_faithfully` — **a path is known by its text**
-/

namespace Rulebook

/-! ## Pieces -/

namespace Text

/-- A piece of a text. -/
structure IsPiece (separator : Char) (cs piece : List Char) : Prop where
  /-- No separator is in it. -/
  plain : separator ∉ piece
  /-- It stands in the text, and at each of its two sides the text ends or a separator stands. -/
  placed : ∃ before after, cs = before ++ (piece ++ after) ∧ (before = [] ∨ [separator] <:+ before) ∧
    (after = [] ∨ [separator] <+: after)

variable {separator : Char}

/-- What is put into a text with separators between is a piece of it. -/
theorem isPiece_intercalate {p : List Char} {ps : List (List Char)} (plain : ∀ q ∈ ps, separator ∉ q) (mem : p ∈ ps) :
    IsPiece separator ([separator].intercalate ps) p := by
  refine ⟨plain p mem, ?_⟩
  induction ps with
  | nil => cases mem
  | cons q qs ih =>
      cases qs with
      | nil =>
          rw [List.mem_singleton.mp mem, List.intercalate_singleton]
          exact ⟨[], [], (List.append_nil q).symm, .inl rfl, .inl rfl⟩
      | cons r rs =>
          rw [List.intercalate_cons_cons, List.append_assoc]
          rcases List.mem_cons.mp mem with rfl | below
          · exact ⟨[], _, rfl, .inl rfl, .inr (List.prefix_append _ _)⟩
          · obtain ⟨before, after, whole, left, right⟩ := ih (List.forall_mem_cons.mp plain).2 below
            refine ⟨q ++ ([separator] ++ before), after, ?_, .inr ?_, right⟩
            · rw [whole, List.append_assoc, List.append_assoc]
            · -- The last separator before the piece is the one behind `q`, or one further on.
              refine List.IsSuffix.trans ?_ (List.suffix_append q _)
              rcases left with rfl | last
              · exact List.suffix_rfl
              · exact last.trans (List.suffix_append _ before)

/-- Behind a separator a piece begins, whatever stands before. -/
theorem mem_pieces_behind (separator : Char) (before cs : List Char) :
    (pieces separator cs).1 ∈ (pieces separator (before ++ ([separator] ++ cs))).2 := by
  induction before with
  | nil =>
      rw [List.nil_append, List.singleton_append, pieces_separator]
      exact List.mem_cons_self
  | cons c before ih =>
      rw [List.cons_append]
      by_cases same : c = separator
      · subst same
        rw [pieces_separator]
        exact List.mem_cons_of_mem _ ih
      · rw [pieces_other same]
        exact ih

/-- **Cutting a text gives the pieces of it.** -/
theorem mem_pieces_iff {cs p : List Char} :
    p ∈ (pieces separator cs).1 :: (pieces separator cs).2 ↔ IsPiece separator cs p := by
  constructor
  · intro mem
    have plain : ∀ q ∈ (pieces separator cs).1 :: (pieces separator cs).2, separator ∉ q :=
      fun q hq inside => (mem_pieces hq inside).2 rfl
    have piece := isPiece_intercalate plain mem
    rwa [intercalate_pieces] at piece
  · rintro ⟨plain, before, after, rfl, left, right⟩
    have first : (pieces separator (p ++ after)).1 = p := by
      rw [pieces_append_left plain]
      rcases right with rfl | ⟨rest, rfl⟩
      · exact List.append_nil p
      · rw [List.singleton_append, pieces_separator]
        exact List.append_nil p
    rcases left with rfl | ⟨start, rfl⟩
    · rw [List.nil_append, first]
      exact List.mem_cons_self
    · have behind := mem_pieces_behind separator start (p ++ after)
      rw [first, ← List.append_assoc] at behind
      exact List.mem_cons_of_mem _ behind

end Text

/-! ## Visible texts -/

/-- A text that has a character in it that is not blank. -/
def Text.Visible (cs : List Char) : Prop := ∃ c ∈ cs, Text.isBlank c = false

theorem Text.trimmed_ne_nil_iff {cs : List Char} : trimmed cs ≠ [] ↔ Visible cs := by
  rw [Ne, trimmed_eq_nil_iff]
  simp [Visible]

theorem Text.isBlankText_eq_false_iff {s : String} : isBlankText s = false ↔ Visible s.toList := by
  rw [← trimmed_ne_nil_iff, isBlankText, List.isEmpty_eq_false_iff]

/-! ## Texts of paths -/

/-- A text that is a path: what stands between its dots is visible everywhere. -/
def IsPathText (s : String) : Prop := ∀ piece ∈ Text.splitText '.' s, Text.Visible piece.toList

/-- What is left of a visible piece after trimming is a segment. -/
theorem isSegment_trimmed {cs piece : List Char} (h : piece ∈ (Text.pieces '.' cs).1 :: (Text.pieces '.' cs).2)
    (visible : Text.Visible piece) : IsSegment (Text.trimmed piece) := by
  refine ⟨Text.trimmed_ne_nil_iff.mpr visible, ?_, Text.trimmed_trimmed piece⟩
  intro dot
  have inside : '.' ∈ piece := Text.mem_of_mem_trimmed dot
  exact (Text.mem_pieces h inside).2 rfl

/-- A piece that gives a segment is visible. -/
theorem visible_of_ofPiece? {piece : List Char} {x : Segment} (h : Segment.ofPiece? piece = some x) :
    Text.Visible piece := by
  unfold Segment.ofPiece? at h
  split at h
  · rename_i isSegment
    exact Text.trimmed_ne_nil_iff.mp isSegment.1
  · cases h

/-- Where a list of pieces gives segments, each of its pieces does. -/
theorem exists_of_mapM_ofPiece? {pieces : List (List Char)} {xs : List Segment}
    (h : pieces.mapM Segment.ofPiece? = some xs) : ∀ piece ∈ pieces, ∃ x, Segment.ofPiece? piece = some x := by
  induction pieces generalizing xs with
  | nil => simp
  | cons p ps ih =>
      rw [List.mapM_cons] at h
      obtain ⟨x, first, h⟩ := Option.bind_eq_some_iff.mp h
      obtain ⟨rest, others, -⟩ := Option.bind_eq_some_iff.mp h
      exact List.forall_mem_cons.mpr ⟨⟨x, first⟩, ih others⟩

theorem isPathText_iff {s : String} :
    IsPathText s ↔ ∀ piece ∈ (Text.pieces '.' s.toList).1 :: (Text.pieces '.' s.toList).2, Text.Visible piece := by
  show (∀ piece ∈ List.map String.ofList _, Text.Visible piece.toList) ↔ _
  rw [List.forall_mem_map]
  simp only [String.toList_ofList]

/-- The segments of the path of a text are the trimmed pieces between its dots. -/
theorem Path.parse_of_isPathText {s : String} (h : IsPathText s) :
    ∃ p, Path.parse s = .ok p ∧ p.segments = (Text.splitText '.' s).map Text.trim :=
  Path.parse_of_trimmed fun piece hp => isSegment_trimmed hp (isPathText_iff.mp h piece hp)

/-- **A text is read as a path exactly where it is one.** -/
theorem Path.parse_isOk_iff {s : String} : (∃ p, Path.parse s = .ok p) ↔ IsPathText s := by
  constructor
  · rintro ⟨p, parsed⟩
    rw [isPathText_iff]
    intro piece hp
    obtain ⟨x, found⟩ := exists_of_mapM_ofPiece? (Path.parse_eq_ok_iff.mp parsed) piece hp
    exact visible_of_ofPiece? found
  · intro h
    obtain ⟨p, parsed, -⟩ := Path.parse_of_isPathText h
    exact ⟨p, parsed⟩

theorem Path.segments_of_parse {s : String} {p : Path} (h : Path.parse s = .ok p) :
    p.segments = (Text.splitText '.' s).map Text.trim := by
  obtain ⟨q, parsed, segments⟩ := Path.parse_of_isPathText (Path.parse_isOk_iff.mp ⟨p, h⟩)
  rw [h] at parsed
  cases parsed
  exact segments

theorem isPathText_iff_isPiece {s : String} :
    IsPathText s ↔ ∀ piece, Text.IsPiece '.' s.toList piece → Text.Visible piece := by
  rw [isPathText_iff]
  exact forall_congr' fun piece => imp_congr_left Text.mem_pieces_iff

/-! ## Printing -/

/-- **A path is known by its text.** A text is read as a path exactly where each of its pieces between dots has a character
    in it that is not blank. The segments of the path are the pieces, trimmed. The text that is printed for the path is
    read as this path again and printed as it was, and whatever other text is read as a path with the same printed text
    is read as this very path. -/
theorem Path.printed_faithfully (s : String) :
    ((∃ p, Path.parse s = .ok p) ↔ ∀ piece, Text.IsPiece '.' s.toList piece → Text.Visible piece) ∧
    ∀ p, Path.parse s = .ok p →
      p.segments = (Text.splitText '.' s).map Text.trim ∧
      Path.parse p.text = .ok p ∧ (Path.parse p.text).map Path.text = .ok p.text ∧
      ∀ t q, Path.parse t = .ok q → q.text = p.text → q = p := by
  refine ⟨Path.parse_isOk_iff.trans isPathText_iff_isPiece, ?_⟩
  intro p parsed
  refine ⟨Path.segments_of_parse parsed, p.parse_text, ?_, ?_⟩
  · rw [p.parse_text]
    rfl
  · intro t q _ same
    exact Path.text_injective same

/-- Two texts with blanks of several kinds around their pieces, and one inside of a piece, that are one path. -/
theorem Path.printed_faithfully_spaced :
    ∃ p q, Path.parse "\u3000budget\t.\u00A0daily cap\n" = .ok p ∧ Path.parse "budget .\u2003daily cap" = .ok q ∧
      Text.IsPiece '.' "\u3000budget\t.\u00A0daily cap\n".toList "\u00A0daily cap\n".toList ∧
      Text.Visible "\u00A0daily cap\n".toList ∧
      p.segments = ["budget", "daily cap"] ∧ Path.parse "budget.daily cap" = .ok p ∧ q.text = p.text ∧ q = p := by
  have read : ∃ p q, Path.parse "\u3000budget\t.\u00A0daily cap\n" = .ok p ∧
      Path.parse "budget .\u2003daily cap" = .ok q ∧ p.text = "budget.daily cap" ∧ q.text = "budget.daily cap" :=
    ⟨_, _, rfl, rfl, rfl, rfl⟩
  obtain ⟨p, q, parsed, parsed', text, text'⟩ := read
  have piece : Text.IsPiece '.' "\u3000budget\t.\u00A0daily cap\n".toList "\u00A0daily cap\n".toList :=
    ⟨by decide, "\u3000budget\t.".toList, [], rfl, .inr ⟨"\u3000budget\t".toList, rfl⟩, .inl rfl⟩
  obtain ⟨readable, faithful⟩ := Path.printed_faithfully "\u3000budget\t.\u00A0daily cap\n"
  obtain ⟨segments, again, -, only⟩ := faithful p parsed
  rw [text] at again
  exact ⟨p, q, parsed, parsed', piece, readable.mp ⟨p, parsed⟩ _ piece, segments, again, text'.trans text.symm,
    only _ q parsed' (text'.trans text.symm)⟩

/-- A zero width space is not blank, a line separator is, and nothing between two dots is as bad as blanks. -/
example : ["a.\u200B", "a.\u2028", "a..b"].map (fun s => (Path.parse s).toOption.isSome) = [true, false, false] := rfl

end Rulebook
