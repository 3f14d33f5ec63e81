import Rulebook.Proofs.Except
import Rulebook.Run

/-!
# `Rulebook.Proofs.Run.Facts` — facts and their records

A record becomes a fact exactly where it is an object, and the fact keeps the place of its record. So the facts of a
list of records are known record by record: where one of them comes from, and how many of them there are of some kind.

* `Value.isObject`, `Value.isAnonymous` — records that become facts, and those of them without an identity
* `factsFrom_index` — facts keep the places of their records, so no two of them share one
* `factsFrom_eq_filterMap` — the facts of records, record by record
* `mem_facts`, `countP_facts`, `length_factsFrom`, `unusable_nil_iff` — facts and what is left out, read off the records
-/

namespace Rulebook

/-! ## Records -/

/-- Whether a value is an object. -/
def Value.isObject : Value → Bool
  | object _ => true
  | _ => false

/-- Whether a value at an identity key gives an identity: a string that is not empty does, and a number. -/
def Value.identifies : Value → Bool
  | string s => s != ""
  | number _ => true
  | _ => false

/-- Whether a record is an object without an identity: none of its identity keys holds a value that gives one. -/
def Value.isAnonymous (keys : List String) : Value → Bool
  | object fields => keys.all fun k => !(Fields.get? k fields).any identifies
  | _ => false

theorem Fact.identity?_isSome (v : Value) : (Fact.identity? v).isSome = v.identifies := by
  cases v with
  | string s =>
      by_cases empty : s = ""
      · subst empty; rfl
      · simp [identity?, Value.identifies, empty]
  | _ => rfl

/-- The fact of a record has no identity exactly where the record is anonymous. -/
theorem Fact.id_eq_none_iff {keys : List String} {i : Nat} {v : Value} {fact : Fact}
    (h : ofRecord keys i v = .ok fact) : fact.id = none ↔ v.isAnonymous keys = true := by
  cases v with
  | object fields =>
      cases h
      simp only [List.findSome?_eq_none_iff, Value.isAnonymous, List.all_eq_true, Bool.not_eq_true']
      refine forall₂_congr fun k _ => ?_
      cases Fields.get? k fields with
      | none => exact iff_of_true rfl rfl
      | some w => rw [Option.bind_some, Option.any_some, ← identity?_isSome, Option.isSome_eq_false_iff,
          Option.isNone_iff_eq_none]
  | _ => cases h

/-- A record becomes a fact exactly where it is an object. -/
theorem Fact.isOk_ofRecord (keys : List String) (i : Nat) (v : Value) : (ofRecord keys i v).isOk = v.isObject := by
  cases v <;> rfl

theorem Fact.exists_ofRecord_iff {keys : List String} {i : Nat} {v : Value} :
    (∃ fact, ofRecord keys i v = .ok fact) ↔ v.isObject = true := by
  rw [← isOk_ofRecord keys i v]
  cases ofRecord keys i v with
  | error e => exact iff_of_false nofun nofun
  | ok fact => exact iff_of_true ⟨fact, rfl⟩ rfl

namespace Run

/-! ## Places -/

theorem ofRecord_index {keys : List String} {i : Nat} {v : Value} {fact : Fact}
    (h : Fact.ofRecord keys i v = .ok fact) : fact.index = i := by
  cases v <;> simp only [Fact.ofRecord, Except.ok.injEq, reduceCtorEq] at h
  rw [← h]

/-- The facts of records from a position on have places from there on, in the order of the records. -/
theorem factsFrom_index (keys : List String) (i : Nat) (records : List Value) :
    (∀ fact ∈ (factsFrom keys i records).1, i ≤ fact.index) ∧
    ((factsFrom keys i records).1.map Fact.index).Pairwise (· < ·) := by
  induction records generalizing i with
  | nil => simp [factsFrom]
  | cons record rest ih =>
      obtain ⟨above, increasing⟩ := ih (i + 1)
      rw [factsFrom]
      cases h : Fact.ofRecord keys i record with
      | error e => exact ⟨fun fact hf => Nat.le_of_succ_le (above fact hf), increasing⟩
      | ok fact =>
          have index := ofRecord_index h
          refine ⟨?_, ?_⟩
          · intro other ho
            rcases List.mem_cons.mp ho with rfl | ho
            · exact Nat.le_of_eq index.symm
            · exact Nat.le_of_succ_le (above other ho)
          · rw [List.map_cons, List.pairwise_cons]
            refine ⟨?_, increasing⟩
            intro n hn
            obtain ⟨other, ho, rfl⟩ := List.mem_map.mp hn
            have := above other ho
            omega

/-! ## Facts read off the records -/

/-- The facts of records from a position on, in the order of the records. -/
theorem factsFrom_eq_filterMap (keys : List String) (i : Nat) (records : List Value) :
    (factsFrom keys i records).1 =
      (records.zipIdx i).filterMap fun x => (Fact.ofRecord keys x.2 x.1).toOption := by
  induction records generalizing i with
  | nil => rfl
  | cons record rest ih =>
      rw [factsFrom, List.zipIdx_cons]
      cases h : Fact.ofRecord keys i record with
      | error e => rw [List.filterMap_cons_none (by rw [h]; rfl), ← ih (i + 1)]
      | ok fact => rw [List.filterMap_cons_some (by rw [h]; rfl), ← ih (i + 1)]

theorem mem_facts {keys : List String} {records : List Value} {fact : Fact} :
    fact ∈ (factsFrom keys 0 records).1 ↔ ∃ i v, records[i]? = some v ∧ Fact.ofRecord keys i v = .ok fact := by
  rw [factsFrom_eq_filterMap, List.mem_filterMap]
  constructor
  · rintro ⟨⟨v, i⟩, mem, made⟩
    exact ⟨i, v, List.mem_zipIdx_iff_getElem?.mp mem, toOption_eq_some_iff.mp made⟩
  · rintro ⟨i, v, there, made⟩
    exact ⟨(v, i), List.mem_zipIdx_iff_getElem?.mpr there, toOption_eq_some_iff.mpr made⟩

/-- The facts of some kind are as many as the records that they come from. -/
theorem countP_facts {keys : List String} {ofFact : Fact → Bool} {ofRecord : Value → Bool}
    (same : ∀ i v, (Fact.ofRecord keys i v).toOption.any ofFact = ofRecord v) (i : Nat) (records : List Value) :
    (factsFrom keys i records).1.countP ofFact = records.countP ofRecord := by
  have each : ∀ x : Value × Nat, ((Fact.ofRecord keys x.2 x.1).toOption.map ofFact).getD false = ofRecord x.1 := by
    intro x
    rw [← same x.2 x.1]
    cases (Fact.ofRecord keys x.2 x.1).toOption <;> rfl
  calc (factsFrom keys i records).1.countP ofFact
      = (records.zipIdx i).countP fun x => ofRecord x.1 := by
        rw [factsFrom_eq_filterMap, List.countP_filterMap, funext each]
    _ = ((records.zipIdx i).map Prod.fst).countP ofRecord := by
        rw [List.countP_map]
        rfl
    _ = records.countP ofRecord := by rw [List.zipIdx_map_fst]

theorem length_facts (keys : List String) (records : List Value) :
    (factsFrom keys 0 records).1.length = records.countP Value.isObject := by
  rw [← List.countP_true]
  refine countP_facts (fun i v => ?_) 0 records
  rw [← Fact.isOk_ofRecord keys i v]
  cases Fact.ofRecord keys i v <;> rfl

/-- Every record becomes a fact or is left out, and none of them is both. -/
theorem length_factsFrom (keys : List String) (i : Nat) (records : List Value) :
    (factsFrom keys i records).1.length + (factsFrom keys i records).2.length = records.length := by
  induction records generalizing i with
  | nil => rfl
  | cons record rest ih =>
      have others := ih (i + 1)
      rw [factsFrom]
      cases Fact.ofRecord keys i record with
      | error e =>
          show (factsFrom keys (i + 1) rest).1.length + ((factsFrom keys (i + 1) rest).2.length + 1) = rest.length + 1
          omega
      | ok fact =>
          show (factsFrom keys (i + 1) rest).1.length + 1 + (factsFrom keys (i + 1) rest).2.length = rest.length + 1
          omega

/-- No record is left out exactly where all of them are objects. -/
theorem unusable_nil_iff (keys : List String) (i : Nat) (records : List Value) :
    (factsFrom keys i records).2 = [] ↔ ∀ v ∈ records, v.isObject = true := by
  induction records generalizing i with
  | nil => simp [factsFrom]
  | cons record rest ih =>
      rw [List.forall_mem_cons, ← ih (i + 1), ← Fact.isOk_ofRecord keys i record, factsFrom]
      cases Fact.ofRecord keys i record with
      | error e => simp [Except.isOk, Except.toBool]
      | ok fact => simp [Except.isOk, Except.toBool]

end Run

end Rulebook
