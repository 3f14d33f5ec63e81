import Rulebook.Path

/-!
# `Rulebook.Proofs.Path` — paths and their texts

A text between dots is a segment when it has no blanks around it and is not empty. A dotted name, as it stands in
an expression, has only such pieces, so that it is read as a path and printed as it was.

* `pieces_eq_splitOn`, `intercalate_pieces`, `mem_pieces`, `pieces_intercalate` — what cutting a text at its dots gives;
* `Path.splitText_text`, `Path.parse_text` — the text of a path is cut into its segments, and read as that path;
* `Path.parse_of_trimmed`, `Path.parse_of_segments` — a text whose pieces are segments when they are trimmed is the path of
  these, and it prints as that text if there is nothing to trim;
* `Path.parse_padded`, `Path.parse_dottedName` — so a dotted name is, also with blanks around it.
-/

namespace Rulebook

namespace Text

/-! ## Pieces -/

theorem pieces_separator (separator : Char) (cs : List Char) :
    pieces separator (separator :: cs) = ([], (pieces separator cs).1 :: (pieces separator cs).2) := by
  rw [pieces]
  exact if_pos rfl

theorem pieces_other {separator c : Char} (h : c ≠ separator) (cs : List Char) :
    pieces separator (c :: cs) = (c :: (pieces separator cs).1, (pieces separator cs).2) := by
  rw [pieces]
  exact if_neg h

/-- Cutting a text is splitting it as a list, where the first part is known to be there. -/
theorem pieces_eq_splitOn (separator : Char) (cs : List Char) :
    (pieces separator cs).1 :: (pieces separator cs).2 = cs.splitOn separator := by
  induction cs with
  | nil => rfl
  | cons c cs ih =>
      rw [List.splitOn_eq_splitOnP, List.splitOnP_cons_eq_if_modifyHead, ← List.splitOn_eq_splitOnP, ← ih]
      by_cases same : c = separator
      · subst same
        rw [pieces_separator, if_pos (beq_self_eq_true c)]
      · rw [pieces_other same, if_neg fun equal => same (eq_of_beq equal)]
        rfl

/-- The pieces of a text with the separator between them are the text. -/
theorem intercalate_pieces (separator : Char) (cs : List Char) :
    [separator].intercalate ((pieces separator cs).1 :: (pieces separator cs).2) = cs := by
  rw [pieces_eq_splitOn]
  exact List.intercalate_splitOn separator

theorem intercalate_splitText (s : String) : ".".intercalate (splitText '.' s) = s := by
  have same : String.toList ∘ String.ofList = id := funext fun cs => String.toList_ofList
  rw [← String.toList_inj, String.toList_intercalate, splitText, List.map_map, same, List.map_id]
  exact intercalate_pieces '.' s.toList

/-- A piece of a text has only characters of the text in it, and the separator is none of them. -/
theorem mem_pieces {separator : Char} {cs p : List Char}
    (h : p ∈ (pieces separator cs).1 :: (pieces separator cs).2) {c : Char} (mem : c ∈ p) :
    c ∈ cs ∧ c ≠ separator := by
  induction cs generalizing p with
  | nil => simp_all [pieces]
  | cons d cs ih =>
      by_cases same : d = separator
      · subst same
        rw [pieces_separator] at h
        rcases List.mem_cons.mp h with rfl | h
        · cases mem
        · exact (ih h mem).imp_left (List.mem_cons_of_mem d)
      · rw [pieces_other same] at h
        rcases List.mem_cons.mp h with rfl | h
        · rcases List.mem_cons.mp mem with rfl | mem
          · exact ⟨List.mem_cons_self, same⟩
          · exact (ih List.mem_cons_self mem).imp_left (List.mem_cons_of_mem d)
        · exact (ih (List.mem_cons_of_mem _ h) mem).imp_left (List.mem_cons_of_mem d)

/-- What stands before the first separator belongs to the first piece. -/
theorem pieces_append_left {separator : Char} {before : List Char} (other : separator ∉ before)
    (cs : List Char) :
    pieces separator (before ++ cs) = (before ++ (pieces separator cs).1, (pieces separator cs).2) := by
  induction before with
  | nil => rfl
  | cons c before ih =>
      rw [List.mem_cons, not_or] at other
      rw [List.cons_append, pieces_other (Ne.symm other.1), ih other.2]
      rfl

/-- What stands after the last separator belongs to the last piece. -/
theorem pieces_append_right {separator : Char} {after : List Char} (other : separator ∉ after)
    (cs : List Char) :
    ∃ init last, (pieces separator cs).1 :: (pieces separator cs).2 = init ++ [last] ∧
      (pieces separator (cs ++ after)).1 :: (pieces separator (cs ++ after)).2 = init ++ [last ++ after] := by
  induction cs with
  | nil =>
      have single := pieces_append_left other []
      rw [List.append_nil] at single
      refine ⟨[], [], rfl, ?_⟩
      rw [List.nil_append, single]
      simp [pieces]
  | cons c cs ih =>
      obtain ⟨init, last, left, right⟩ := ih
      by_cases same : c = separator
      · subst same
        refine ⟨[] :: init, last, ?_, ?_⟩
        · rw [pieces_separator, left, List.cons_append]
        · rw [List.cons_append, pieces_separator, right, List.cons_append]
      · rw [List.cons_append, pieces_other same, pieces_other same]
        cases init with
        | nil =>
            obtain ⟨first, none⟩ := List.cons.inj left
            obtain ⟨first', none'⟩ := List.cons.inj right
            exact ⟨[], c :: last, by rw [first, none]; rfl, by rw [first', none']; rfl⟩
        | cons p init =>
            obtain ⟨first, others⟩ := List.cons.inj left
            obtain ⟨first', others'⟩ := List.cons.inj right
            exact ⟨(c :: p) :: init, last, by rw [first, others]; rfl, by rw [first', others']; rfl⟩

/-- Pieces without the separator are found again between separators. -/
theorem pieces_intercalate {separator : Char} {p : List Char} {ps : List (List Char)}
    (h : ∀ q ∈ p :: ps, separator ∉ q) : pieces separator ([separator].intercalate (p :: ps)) = (p, ps) := by
  have parts := List.splitOn_intercalate separator h (List.cons_ne_nil p ps)
  rw [← pieces_eq_splitOn] at parts
  obtain ⟨first, others⟩ := List.cons.inj parts
  exact Prod.ext first others

/-! ## Blanks around a text -/

theorem trimmed_append_left {before : List Char} (blank : ∀ c ∈ before, isBlank c) (cs : List Char) :
    trimmed (before ++ cs) = trimmed cs := by
  rw [trimmed, trimmed, trimStart, trimStart, List.dropWhile_append_of_pos blank]

theorem trimmed_append_right {after : List Char} (blank : ∀ c ∈ after, isBlank c) (cs : List Char) :
    trimmed (cs ++ after) = trimmed cs := by
  have ends : ∀ ds : List Char, trimEnd (ds ++ after) = trimEnd ds := by
    intro ds
    rw [trimEnd, trimEnd, List.reverse_append,
      List.dropWhile_append_of_pos fun c hc => blank c (List.mem_reverse.mp hc)]
  rw [trimmed, trimmed, trimStart, trimStart, List.dropWhile_append]
  split
  · rename_i nothing
    rw [List.isEmpty_iff.mp nothing, dropWhile_eq_nil_iff.mpr blank]
  · exact ends _

/-- Blanks around a text do not show in its pieces when these are trimmed. -/
theorem trimmed_pieces_padded {separator : Char} {before after : List Char}
    (blank : ∀ c ∈ before ++ after, c ≠ separator ∧ isBlank c) (cs : List Char) :
    ((pieces separator (before ++ (cs ++ after))).1 :: (pieces separator (before ++ (cs ++ after))).2).map trimmed =
      ((pieces separator cs).1 :: (pieces separator cs).2).map trimmed := by
  obtain ⟨blankBefore, blankAfter⟩ := List.forall_mem_append.mp blank
  have otherBefore : separator ∉ before := fun mem => (blankBefore _ mem).1 rfl
  have otherAfter : separator ∉ after := fun mem => (blankAfter _ mem).1 rfl
  obtain ⟨init, last, left, right⟩ := pieces_append_right otherAfter cs
  rw [pieces_append_left otherBefore, List.map_cons, trimmed_append_left fun c hc => (blankBefore c hc).2,
    ← List.map_cons, left, right, List.map_append, List.map_append, List.map_singleton, List.map_singleton,
    trimmed_append_right fun c hc => (blankAfter c hc).2]

/-! ## Texts without blanks -/

/-- Trimming leaves a text without blanks as it is. -/
theorem trimmed_of_no_blank {cs : List Char} (h : ∀ c ∈ cs, isBlank c = false) : trimmed cs = cs := by
  have same : ∀ ds : List Char, (∀ c ∈ ds, isBlank c = false) → ds.dropWhile isBlank = ds := by
    intro ds hds
    cases ds with
    | nil => rfl
    | cons d ds => exact dropWhile_eq_self (hds d List.mem_cons_self)
  rw [trimmed, trimStart, same cs h, trimEnd, same cs.reverse (by simpa using h), List.reverse_reverse]

/-- A character of a name is neither a dot nor blank. -/
theorem isNameChar_spec {c : Char} (h : isNameChar c = true) : c ≠ '.' ∧ isBlank c = false := by
  refine ⟨by rintro rfl; revert h; decide, ?_⟩
  -- The classes of characters, spelled out: letters of both cases, digits and the underscore.
  change (((decide (65 ≤ c.val ∧ c.val ≤ 90) || (97 ≤ c.val && c.val ≤ 122)) || (48 ≤ c.val && c.val ≤ 57)) ||
    c == '_') = true at h
  simp only [Bool.or_eq_true, Bool.and_eq_true, decide_eq_true_eq, beq_iff_eq, UInt32.le_iff_toNat_le] at h
  have code : c.val.toNat = c.toNat := rfl
  have small : (48 ≤ c.toNat ∧ c.toNat ≤ 57) ∨ (65 ≤ c.toNat ∧ c.toNat ≤ 90) ∨ (97 ≤ c.toNat ∧ c.toNat ≤ 122) ∨
      c.toNat = 95 := by
    rcases h with ((⟨h, h'⟩ | ⟨h, h'⟩) | ⟨h, h'⟩) | rfl
    · exact .inr (.inl ⟨h, h'⟩)
    · exact .inr (.inr (.inl ⟨h, h'⟩))
    · exact .inl ⟨h, h'⟩
    · exact .inr (.inr (.inr rfl))
  simp only [isBlank, Bool.or_eq_false_iff, Bool.and_eq_false_iff, decide_eq_false_iff_not, beq_eq_false_iff_ne]
  omega

theorem isNameChar_of_isNameStart {c : Char} (h : isNameStart c = true) : isNameChar c = true := by
  simp only [isNameStart, Bool.or_eq_true] at h
  simp only [isNameChar, Char.isAlphanum, Bool.or_eq_true]
  exact h.imp_left .inl

/-! ## Dotted names -/

/-- What continues a dotted name has pieces of characters of a name, of which only the first can be empty. -/
theorem pieces_dottedTail {cs : List Char} (h : dottedTail cs = cs.length) :
    (∀ c ∈ (pieces '.' cs).1, isNameChar c) ∧
    ((pieces '.' cs).1 = [] → cs.head? = none ∨ cs.head? = some '.') ∧
    ∀ p ∈ (pieces '.' cs).2, p ≠ [] ∧ ∀ c ∈ p, isNameChar c := by
  induction cs with
  | nil => simp [pieces]
  | cons c cs ih =>
      simp only [dottedTail, List.length_cons] at h
      split at h
      · rename_i continues
        obtain ⟨first, empty, others⟩ := ih (by omega)
        by_cases dot : c = '.'
        · subst dot
          rw [pieces_separator]
          refine ⟨by simp, by simp, ?_⟩
          intro p hp
          rcases List.mem_cons.mp hp with rfl | hp
          · refine ⟨fun none => ?_, first⟩
            -- A dot in a name has a character of the name after it.
            have after : cs.head?.any isNameChar = true := by simpa [isNameChar] using continues
            rcases empty none with head | head <;> rw [head] at after <;> revert after <;> decide
          · exact others p hp
        · have named : isNameChar c = true := by simpa [dot] using continues
          rw [pieces_other dot]
          refine ⟨?_, by simp, others⟩
          intro d hd
          rcases List.mem_cons.mp hd with rfl | hd
          · exact named
          · exact first d hd
      · omega

/-- The pieces of a dotted name are not empty and have characters of a name in them. -/
theorem pieces_dottedName {cs : List Char} (h : dottedName cs = cs.length) (some : cs ≠ []) :
    ∀ p ∈ (pieces '.' cs).1 :: (pieces '.' cs).2, p ≠ [] ∧ ∀ c ∈ p, isNameChar c := by
  cases cs with
  | nil => exact absurd rfl some
  | cons c cs =>
      simp only [dottedName, List.length_cons] at h
      split at h
      · rename_i start
        have named := isNameChar_of_isNameStart start
        have noDot := (isNameChar_spec named).1
        obtain ⟨first, _, others⟩ := pieces_dottedTail (Nat.succ.inj h)
        rw [pieces_other noDot]
        simp only [List.forall_mem_cons]
        exact ⟨⟨by simp, named, first⟩, others⟩
      · omega

/-- The longest dotted name at the start of a text is a dotted name. -/
theorem dottedTail_take (cs : List Char) :
    dottedTail (cs.take (dottedTail cs)) = dottedTail cs ∧ dottedTail cs ≤ cs.length := by
  induction cs with
  | nil => simp [dottedTail]
  | cons c cs ih =>
      rw [dottedTail]
      split
      · rename_i continues
        rw [List.take_succ_cons, dottedTail, if_pos, ih.1]
        · exact ⟨rfl, Nat.succ_le_succ ih.2⟩
        -- What follows a dot is kept with it.
        simp only [Bool.or_eq_true, Bool.and_eq_true] at continues ⊢
        refine continues.imp_right fun ⟨dot, after⟩ => ⟨dot, ?_⟩
        cases cs with
        | nil => cases after
        | cons d ds =>
            have named : isNameChar d = true := after
            rw [dottedTail, named, Bool.true_or, if_pos rfl, List.take_succ_cons]
            exact named
      · simp [dottedTail]

theorem dottedName_take (cs : List Char) :
    dottedName (cs.take (dottedName cs)) = (cs.take (dottedName cs)).length := by
  cases cs with
  | nil => rfl
  | cons c cs =>
      rw [dottedName]
      split
      · rename_i start
        rw [List.take_succ_cons, dottedName, if_pos start, (dottedTail_take cs).1, List.length_cons,
          List.length_take_of_le (dottedTail_take cs).2]
      · rfl

end Text

/-! ## Paths -/

/-- The segment of a text that is one. -/
def Segment.ofChars (cs : List Char) (h : IsSegment cs) : Segment :=
  ⟨String.ofList cs, by rw [String.toList_ofList]; exact h⟩

theorem Segment.ofPiece?_of_isSegment {cs : List Char} (h : IsSegment cs) :
    Segment.ofPiece? cs = some (Segment.ofChars cs h) := by
  have trimmed : Text.trimmed cs = cs := h.2.2
  simp only [Segment.ofPiece?, trimmed, dif_pos h, Segment.ofChars]

theorem Segment.ofChars_toList (x : Segment) : Segment.ofChars x.text.toList x.isSegment = x := by
  obtain ⟨text, isSegment⟩ := x
  simp [Segment.ofChars]

/-- Only what is left of a piece after trimming counts. -/
theorem Segment.ofPiece?_trimmed (cs : List Char) :
    Segment.ofPiece? cs = Segment.ofPiece? (Text.trimmed cs) := by
  simp only [Segment.ofPiece?, Text.trimmed_trimmed]

theorem Segment.mapM_ofPiece?_trimmed (ps : List (List Char)) :
    ps.mapM Segment.ofPiece? = (ps.map Text.trimmed).mapM Segment.ofPiece? := by
  induction ps with
  | nil => rfl
  | cons p ps ih => rw [List.map_cons, List.mapM_cons, List.mapM_cons, ← Segment.ofPiece?_trimmed, ih]

theorem Segment.mapM_ofPiece? {ps : List (List Char)} (h : ∀ p ∈ ps, IsSegment p) :
    ∃ segments, ps.mapM Segment.ofPiece? = some segments ∧ segments.map Segment.text = ps.map String.ofList := by
  induction ps with
  | nil => exact ⟨[], rfl, rfl⟩
  | cons p ps ih =>
      obtain ⟨segments, parsed, texts⟩ := ih fun q hq => h q (List.mem_cons_of_mem p hq)
      refine ⟨Segment.ofChars p (h p List.mem_cons_self) :: segments, ?_, ?_⟩
      · rw [List.mapM_cons, Segment.ofPiece?_of_isSegment (h p List.mem_cons_self), parsed]
        rfl
      · rw [List.map_cons, List.map_cons, texts]
        rfl

/-- A text is the path of the segments that its pieces are. -/
theorem Path.parse_eq_ok_iff {s : String} {p : Path} :
    Path.parse s = .ok p ↔
      ((Text.pieces '.' s.toList).1 :: (Text.pieces '.' s.toList).2).mapM Segment.ofPiece? =
        some (p.first :: p.rest) := by
  rw [List.mapM_cons, Path.parse]
  cases first : Segment.ofPiece? (Text.pieces '.' s.toList).1 with
  | none => simp [first]
  | some x =>
      cases others : (Text.pieces '.' s.toList).2.mapM Segment.ofPiece? with
      | none => simp [first, others]
      | some xs =>
          obtain ⟨y, ys⟩ := p
          simp [first, others]

/-- The text of a path is the texts of its segments with dots between them. -/
theorem Path.toList_text (p : Path) :
    p.text.toList = ['.'].intercalate ((p.first :: p.rest).map fun x => x.text.toList) := by
  rw [Path.text, String.toList_intercalate, Path.segments, List.map_map]
  rfl

/-- The pieces of the text of a path are its segments, because no segment has a dot in it. -/
theorem Path.pieces_text (p : Path) :
    Text.pieces '.' p.text.toList = (p.first.text.toList, p.rest.map fun x => x.text.toList) := by
  have noDot : ∀ cs ∈ (p.first :: p.rest).map fun x => x.text.toList, '.' ∉ cs := by
    intro cs hcs
    obtain ⟨x, -, rfl⟩ := List.mem_map.mp hcs
    exact x.isSegment.2.1
  rw [Path.toList_text, List.map_cons, Text.pieces_intercalate noDot]

theorem Path.splitText_text (p : Path) : Text.splitText '.' p.text = p.segments := by
  simp [Text.splitText, Path.pieces_text, Path.segments]

/-- **The text of a path is read as that path**, so different paths have different texts. -/
theorem Path.parse_text (p : Path) : Path.parse p.text = .ok p := by
  rw [Path.parse_eq_ok_iff, Path.pieces_text]
  show ((p.first :: p.rest).map fun x => x.text.toList).mapM Segment.ofPiece? = some (p.first :: p.rest)
  generalize p.first :: p.rest = xs
  induction xs with
  | nil => rfl
  | cons x xs ih =>
      rw [List.map_cons, List.mapM_cons, Segment.ofPiece?_of_isSegment x.isSegment, Segment.ofChars_toList, ih]
      rfl

theorem Path.text_injective {p q : Path} (h : p.text = q.text) : p = q := by
  have same : Path.parse p.text = Path.parse q.text := by rw [h]
  rw [Path.parse_text, Path.parse_text] at same
  exact Except.ok.inj same

/-- A text whose pieces are segments when they are trimmed is a path of these segments. -/
theorem Path.parse_of_trimmed {s : String}
    (h : ∀ p ∈ (Text.pieces '.' s.toList).1 :: (Text.pieces '.' s.toList).2, IsSegment (Text.trimmed p)) :
    ∃ p, Path.parse s = .ok p ∧ p.segments = (Text.splitText '.' s).map Text.trim := by
  obtain ⟨xs, parsed, texts⟩ := Segment.mapM_ofPiece? (List.forall_mem_map.mpr h)
  rw [← Segment.mapM_ofPiece?_trimmed] at parsed
  cases xs with
  | nil => cases texts
  | cons first rest =>
      refine ⟨⟨first, rest⟩, Path.parse_eq_ok_iff.mpr parsed, ?_⟩
      show (first :: rest).map Segment.text = List.map Text.trim (List.map String.ofList _)
      rw [texts, List.map_map, List.map_map]
      refine List.map_congr_left fun piece _ => ?_
      show String.ofList (Text.trimmed piece) = String.ofList (Text.trimmed (String.ofList piece).toList)
      rw [String.toList_ofList]

/-- **A text whose pieces are segments is a path**, and the path prints as that text. -/
theorem Path.parse_of_segments {s : String}
    (h : ∀ p ∈ (Text.pieces '.' s.toList).1 :: (Text.pieces '.' s.toList).2, IsSegment p) :
    ∃ p, Path.parse s = .ok p ∧ p.segments = Text.splitText '.' s ∧ p.text = s := by
  have kept : ∀ p ∈ (Text.pieces '.' s.toList).1 :: (Text.pieces '.' s.toList).2, Text.trimmed p = p :=
    fun p hp => (h p hp).2.2
  have segmented : ∀ p ∈ (Text.pieces '.' s.toList).1 :: (Text.pieces '.' s.toList).2, IsSegment (Text.trimmed p) := by
    intro p hp
    rw [kept p hp]
    exact h p hp
  obtain ⟨p, parsed, segments⟩ := Path.parse_of_trimmed segmented
  have trimmed : (Text.splitText '.' s).map Text.trim = Text.splitText '.' s := by
    rw [Text.splitText, List.map_map]
    refine List.map_congr_left fun piece hp => ?_
    show String.ofList (Text.trimmed (String.ofList piece).toList) = String.ofList piece
    rw [String.toList_ofList, kept piece hp]
  rw [trimmed] at segments
  refine ⟨p, parsed, segments, ?_⟩
  rw [Path.text, segments]
  exact Text.intercalate_splitText s

/-- Blanks around a path do not matter. -/
theorem Path.parse_padded {s t : String} {p : Path} {before after : List Char}
    (blank : ∀ c ∈ before ++ after, c ≠ '.' ∧ Text.isBlank c) (padded : t.toList = before ++ (s.toList ++ after))
    (h : Path.parse s = .ok p) : Path.parse t = .ok p := by
  rw [Path.parse_eq_ok_iff] at h ⊢
  rw [← h, Segment.mapM_ofPiece?_trimmed, Segment.mapM_ofPiece?_trimmed (_ :: _), padded,
    Text.trimmed_pieces_padded blank]

/-- **A dotted name is a path** that prints as the name. -/
theorem Path.parse_dottedName {cs : List Char} (h : Text.dottedName cs = cs.length) (some : cs ≠ []) :
    ∃ p, Path.parse (String.ofList cs) = .ok p ∧ p.segments = Text.splitText '.' (String.ofList cs) ∧
      p.text = String.ofList cs := by
  refine Path.parse_of_segments ?_
  rw [String.toList_ofList]
  intro p hp
  obtain ⟨nonempty, named⟩ := Text.pieces_dottedName h some p hp
  refine ⟨nonempty, fun dot => ?_, ?_⟩
  · exact (Text.mem_pieces hp dot).2 rfl
  · exact Text.trimmed_of_no_blank fun c hc => (Text.isNameChar_spec (named c hc)).2

end Rulebook
