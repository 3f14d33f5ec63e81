import Mathlib.Data.List.Forall2
import Mathlib.Data.List.Perm.Basic
import Rulebook.Document

/-!
# `Rulebook.Proofs.Document` — no entry of a document is lost

A document of rules has entries, and each of them is decoded on its own: it gives a definition, or it is set aside with
its position. So the positions of a document are divided in two, and neither part is out of order.

* `Value.HasEntries` — the entries of a document, said without reading it
* `Defines`, `SetsAside` — what becomes of one entry
* `RuleBatch.Divides` — every entry is in one place: a definition, or set aside with its own position
* `RuleBatch.ofDocument_divides` — what is read from a document divides its entries
-/

namespace Rulebook

/-! ## Entries -/

/-- A document of rules has entries: it is the list of them, or an object with the list under `rules`. -/
inductive Value.HasEntries : Value → List Value → Prop where
  | list (entries : List Value) : HasEntries (.array entries) entries
  | under {fields : Fields} {entries : List Value} (found : Fields.get? "rules" fields = some (.array entries)) :
      HasEntries (.object fields) entries

/-- What is read from a document are its entries, decoded one by one. -/
theorem RuleBatch.entries_of_ofDocument {document : Value} {batch : RuleBatch}
    (h : RuleBatch.ofDocument document = .ok batch) :
    ∃ entries, document.HasEntries entries ∧ batch = RuleBatch.ofEntries 0 entries := by
  cases document with
  | array entries =>
      cases h
      exact ⟨entries, .list entries, rfl⟩
  | object fields =>
      simp only [RuleBatch.ofDocument, Value.field?] at h
      split at h
      · rename_i entries found
        cases h
        exact ⟨entries, .under found, rfl⟩
      · cases h
  | _ => cases h

/-! ## Positions -/

section

variable (numbered : List (Value × Nat))

/-- The entry with a number gives a definition: it stands for one, bare or in a row. -/
def Defines (i : Nat) (d : RuleDefinition) : Prop :=
  ∃ entry, (entry, i) ∈ numbered ∧ RuleDefinition.decode? (unwrapRow entry) = some d

/-- An entry is set aside: it is no rule, and its own number and name are kept. -/
def SetsAside (r : Rejected) : Prop :=
  ∃ entry, (entry, r.index) ∈ numbered ∧ RuleDefinition.decode? (unwrapRow entry) = none ∧
    r.name = entryName? (unwrapRow entry)

end

/-- **A batch divides numbered entries.** Every number belongs to a definition or to an entry that is set aside, and to
    one of them only; both come in the order of the entries. -/
structure RuleBatch.Divides (batch : RuleBatch) (numbered : List (Value × Nat)) (positions : List Nat) : Prop where
  /-- There is a definition for each of the positions: the one that the entry there gives. -/
  defined : List.Forall₂ (Defines numbered) positions batch.definitions
  /-- What is set aside is no rule, and it has its own position and name. -/
  rejected : ∀ r ∈ batch.rejected, SetsAside numbered r
  definedInOrder : positions.Sublist (numbered.map Prod.snd)
  rejectedInOrder : (batch.rejected.map Rejected.index).Sublist (numbered.map Prod.snd)
  /-- No position is lost and none comes twice. -/
  all : (positions ++ batch.rejected.map Rejected.index).Perm (numbered.map Prod.snd)

section

variable {numbered : List (Value × Nat)} {entry : Value × Nat}

/-- What entries give they give also with another one in front. -/
theorem Defines.cons {i : Nat} {d : RuleDefinition} (h : Defines numbered i d) : Defines (entry :: numbered) i d := by
  obtain ⟨other, mem, decoded⟩ := h
  exact ⟨other, List.mem_cons_of_mem _ mem, decoded⟩

theorem SetsAside.cons {r : Rejected} (h : SetsAside numbered r) : SetsAside (entry :: numbered) r := by
  obtain ⟨other, mem, undecoded⟩ := h
  exact ⟨other, List.mem_cons_of_mem _ mem, undecoded⟩

end

namespace RuleBatch.Divides

variable {batch : RuleBatch} {numbered : List (Value × Nat)} {positions : List Nat} {entry : Value}

/-- One more entry in front, which gives a definition. -/
theorem define (h : batch.Divides numbered positions) (i : Nat) {d : RuleDefinition}
    (decoded : RuleDefinition.decode? (unwrapRow entry) = some d) :
    RuleBatch.Divides { batch with definitions := d :: batch.definitions } ((entry, i) :: numbered)
      (i :: positions) where
  defined := .cons ⟨entry, List.mem_cons_self, decoded⟩ (h.defined.imp fun _ _ => Defines.cons)
  rejected := fun r hr => (h.rejected r hr).cons
  definedInOrder := h.definedInOrder.cons_cons i
  rejectedInOrder := h.rejectedInOrder.cons i
  all := h.all.cons i

/-- One more entry in front, which is set aside. -/
theorem reject (h : batch.Divides numbered positions) (i : Nat)
    (undecoded : RuleDefinition.decode? (unwrapRow entry) = none) :
    RuleBatch.Divides { batch with rejected := ⟨i, entryName? (unwrapRow entry)⟩ :: batch.rejected }
      ((entry, i) :: numbered) positions where
  defined := h.defined.imp fun _ _ => Defines.cons
  rejected := by
    intro r hr
    rcases List.mem_cons.mp hr with rfl | hr
    · exact ⟨entry, List.mem_cons_self, undecoded, rfl⟩
    · exact (h.rejected r hr).cons
  definedInOrder := h.definedInOrder.cons i
  rejectedInOrder := h.rejectedInOrder.cons_cons i
  -- Its position comes after those of the definitions, wherever they are.
  all := List.perm_middle.trans (h.all.cons i)

/-- As many definitions and rejected entries as there are entries. -/
theorem length (h : batch.Divides numbered positions) :
    batch.definitions.length + batch.rejected.length = numbered.length := by
  have whole := h.all.length_eq
  have defined := h.defined.length_eq
  rw [List.length_append, List.length_map, List.length_map] at whole
  omega

end RuleBatch.Divides

/-- Entries that are decoded one by one, numbered from some position on, are divided. -/
theorem RuleBatch.ofEntries_divides (i : Nat) (entries : List Value) :
    ∃ positions, (RuleBatch.ofEntries i entries).Divides (entries.zipIdx i) positions := by
  induction entries generalizing i with
  | nil => exact ⟨[], .nil, nofun, .slnil, .slnil, .nil⟩
  | cons entry rest ih =>
      obtain ⟨positions, divides⟩ := ih (i + 1)
      rw [List.zipIdx_cons, RuleBatch.ofEntries]
      cases decoded : RuleDefinition.decode? (unwrapRow entry) with
      | some d => exact ⟨i :: positions, divides.define i decoded⟩
      | none => exact ⟨positions, divides.reject i decoded⟩

/-- **What is read from a document divides its entries.** -/
theorem RuleBatch.ofDocument_divides {document : Value} {batch : RuleBatch}
    (h : RuleBatch.ofDocument document = .ok batch) :
    ∃ entries positions, document.HasEntries entries ∧ batch.Divides entries.zipIdx positions := by
  obtain ⟨entries, has, rfl⟩ := RuleBatch.entries_of_ofDocument h
  obtain ⟨positions, divides⟩ := RuleBatch.ofEntries_divides 0 entries
  exact ⟨entries, positions, has, divides⟩

end Rulebook
