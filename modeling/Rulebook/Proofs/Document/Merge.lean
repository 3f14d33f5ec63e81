import Mathlib.Data.List.Forall2
import Rulebook.Document
import Rulebook.Proofs.Comparison
import Rulebook.Proofs.Fields

/-!
# `Rulebook.Proofs.Document.Merge` — campaigns joined with line items

Joining goes over the campaigns and, for each of them, over the line items. What comes out are the records of the pairs
in which the line item refers to the campaign, in the order of their positions. Equality of identities has no direction
and passes on, so where no two campaigns have equal identities a line item refers to one of them at most; then no line
item comes in twice. The fields of a record are those of its line item, with the name of the campaign where the line
item has none: its reference to the campaign is one of its own fields, so nothing else of the campaign is left.

* `Value.refersTo`, `DistinctIds` — line items and campaigns
* `IsRecordOf`, `IsJoin` — what a record and a list of records of line items must be
* `merge_eq_map`, `recordOf_isRecordOf` — the records, pair by pair
* `referringPlaces_ordered`, `count_referringPlaces` — where these pairs stand, and how often a line item does
* `merge_isJoin` — what joining yields
-/

namespace Rulebook

/-! ## What a join is -/

/-- **A line item refers to a campaign**: the campaign has an id, and the line item has one like it as `campaign_id`. -/
def Value.refersTo (item campaign : Value) : Bool :=
  (campaign.field? "id").any fun id => (item.field? "campaign_id").any id.same

/-- No two campaigns have equal ids. There may be any number of campaigns without one. -/
def DistinctIds (campaigns : List Value) : Prop :=
  campaigns.Pairwise fun c d => ∀ a b, c.field? "id" = some a → d.field? "id" = some b → a.same b = false

/-- **The record of a line item of a campaign.** -/
structure IsRecordOf (campaign item record : Value) : Prop where
  isObject : ∃ fields, record = .object fields
  namesOnce : record.NamesOnce
  /-- It has the fields of the line item; where this has no `campaign_name`, the name of the campaign, which is empty if
      there is none; and nothing else. -/
  content : ∀ key, record.field? key =
    (item.field? key).or (if key = "campaign_name" then some ((campaign.field? "name").getD (.string "")) else none)

/-- **Records are a join**, each of a campaign and a line item at certain positions. -/
structure IsJoin (campaigns lineItems records : List Value) (places : List (Nat × Nat)) : Prop where
  /-- By the position of the campaign, and for one campaign by that of the line item. -/
  ordered : places.Pairwise (Prod.Lex (· < ·) (· < ·))
  /-- For every line item that refers to a campaign, and no other pair. -/
  matching : ∀ i j, (i, j) ∈ places ↔
    ∃ campaign item, campaigns[i]? = some campaign ∧ lineItems[j]? = some item ∧ item.refersTo campaign = true
  /-- A line item comes in exactly once if it refers to some campaign, and not at all otherwise. -/
  once : ∀ j item, lineItems[j]? = some item →
    (places.map Prod.snd).count j = if campaigns.any item.refersTo then 1 else 0
  /-- The records are those of the line items at these positions. -/
  records : List.Forall₂ (fun p record => ∃ campaign item, campaigns[p.1]? = some campaign ∧
    lineItems[p.2]? = some item ∧ IsRecordOf campaign item record) places records

/-! ## One record -/

/-- The record that joining makes of a campaign and a line item that refers to it. -/
def recordOf (campaign item : Value) : Value :=
  joined ((campaign.field? "id").getD .null) ((campaign.field? "name").getD (.string "")) item

theorem recordsOf_eq (lineItems : List Value) (campaign : Value) :
    recordsOf lineItems campaign = (lineItems.filter fun item => item.refersTo campaign).map (recordOf campaign) := by
  unfold recordsOf Value.refersTo recordOf
  cases campaign.field? "id" with
  | none => simp
  | some id => rfl

/-- What a line item that refers to a campaign has. -/
theorem Value.refersTo_iff {item campaign : Value} :
    item.refersTo campaign = true ↔
      ∃ id own, campaign.field? "id" = some id ∧ item.field? "campaign_id" = some own ∧ id.same own = true := by
  simp only [refersTo, Option.any_eq_true, exists_and_left]

/-- **The record of a line item has its fields**, and of the campaign only what the line item lacks. -/
theorem recordOf_isRecordOf {campaign item : Value} (refers : item.refersTo campaign = true)
    (named : item.NamesOnce) : IsRecordOf campaign item (recordOf campaign item) := by
  obtain ⟨-, own, -, found, -⟩ := Value.refersTo_iff.mp refers
  cases item with
  | object fields =>
      let name := (campaign.field? "name").getD (.string "")
      let reference := (campaign.field? "id").getD .null
      let start := Fields.ofList [("campaign_id", reference), ("campaign_name", name)]
      have written : start = Fields.insert "campaign_name" name (Fields.insert "campaign_id" reference []) := by
        simp only [start, Fields.ofList, Fields.extend, List.foldl_cons, List.foldl_nil]
      have once : start.names.Nodup := Fields.nodup_ofList _
      refine ⟨⟨_, rfl⟩, ?_, ?_⟩
      · intro all eq
        cases eq
        exact Fields.nodup_extend once fields
      · intro key
        show Fields.get? key (Fields.extend start fields) =
          (Fields.get? key fields).or (if key = "campaign_name" then some name else none)
        rw [Fields.get?_extend (named fields rfl), written]
        by_cases isName : key = "campaign_name"
        · rw [if_pos isName, isName, Fields.get?_insert_self]
        · rw [if_neg isName, Fields.get?_insert_of_ne isName]
          by_cases isId : key = "campaign_id"
          · -- The line item has this field itself.
            have there : Fields.get? "campaign_id" fields = some own := found
            rw [isId, there]
            rfl
          · rw [Fields.get?_insert_of_ne isId, Fields.get?]
  | _ => cases found

/-! ## All records -/

/-- The pairs of a campaign and a line item that refers to it, each of the two with its position. -/
def referring (campaigns lineItems : List Value) : List ((Value × Nat) × (Value × Nat)) :=
  campaigns.zipIdx.flatMap fun campaign =>
    (lineItems.zipIdx.filter fun item => item.1.refersTo campaign.1).map fun item => (campaign, item)

variable {campaigns lineItems : List Value}

theorem mem_referring {campaign item : Value} {i j : Nat} :
    ((campaign, i), (item, j)) ∈ referring campaigns lineItems ↔
      campaigns[i]? = some campaign ∧ lineItems[j]? = some item ∧ item.refersTo campaign = true := by
  simp only [referring, List.mem_flatMap, List.mem_map, List.mem_filter, List.mem_zipIdx_iff_getElem?, Prod.mk.injEq]
  constructor
  · rintro ⟨c, hc, it, ⟨hi, refers⟩, rfl, rfl⟩
    exact ⟨hc, hi, refers⟩
  · rintro ⟨hc, hi, refers⟩
    exact ⟨_, hc, _, ⟨hi, refers⟩, rfl, rfl⟩

/-- **Joining makes one record of each of these pairs**, in their order. -/
theorem merge_eq_map (campaigns lineItems : List Value) :
    merge campaigns lineItems = (referring campaigns lineItems).map fun p => recordOf p.1.1 p.2.1 := by
  have one : ∀ campaign : Value × Nat, recordsOf lineItems campaign.1 =
      ((lineItems.zipIdx.filter fun item => item.1.refersTo campaign.1).map fun item => (campaign, item)).map
        fun p => recordOf p.1.1 p.2.1 := by
    intro campaign
    conv_lhs => rw [recordsOf_eq, ← List.zipIdx_map_fst 0 lineItems, List.filter_map, List.map_map]
    rw [List.map_map]
    rfl
  conv_lhs => rw [merge, ← List.zipIdx_map_fst 0 campaigns, List.flatMap_map]
  rw [referring, List.map_flatMap]
  exact List.flatMap_congr fun campaign _ => one campaign

/-- The positions of these pairs. -/
def referringPlaces (campaigns lineItems : List Value) : List (Nat × Nat) :=
  (referring campaigns lineItems).map fun p => (p.1.2, p.2.2)

theorem mem_referringPlaces {i j : Nat} :
    (i, j) ∈ referringPlaces campaigns lineItems ↔
      ∃ campaign item, campaigns[i]? = some campaign ∧ lineItems[j]? = some item ∧ item.refersTo campaign = true := by
  rw [referringPlaces, List.mem_map]
  constructor
  · rintro ⟨⟨⟨campaign, i⟩, ⟨item, j⟩⟩, mem, eq⟩
    cases eq
    exact ⟨campaign, item, mem_referring.mp mem⟩
  · rintro ⟨campaign, item, h⟩
    exact ⟨((campaign, i), (item, j)), mem_referring.mpr h, rfl⟩

theorem zipIdx_increasing (vs : List Value) : vs.zipIdx.Pairwise fun x y => x.2 < y.2 := by
  have positions : (vs.zipIdx.map Prod.snd).Pairwise (· < ·) := by
    rw [List.zipIdx_map_snd]
    exact List.pairwise_lt_range'
  exact List.pairwise_map.mp positions

/-- The pairs come by campaign, and for one campaign by line item. -/
theorem referringPlaces_ordered (campaigns lineItems : List Value) :
    (referringPlaces campaigns lineItems).Pairwise (Prod.Lex (· < ·) (· < ·)) := by
  rw [referringPlaces, List.pairwise_map, referring, List.pairwise_flatMap]
  constructor
  · intro campaign _
    rw [List.pairwise_map]
    exact ((zipIdx_increasing lineItems).filter _).imp fun h => .right _ h
  · refine (zipIdx_increasing campaigns).imp fun h p hp q hq => ?_
    obtain ⟨item, -, rfl⟩ := List.mem_map.mp hp
    obtain ⟨item', -, rfl⟩ := List.mem_map.mp hq
    exact .left _ _ h

/-- Campaigns that a line item refers to have equal ids. -/
theorem Value.same_of_refersTo {item c d : Value} (hc : item.refersTo c = true) (hd : item.refersTo d = true) :
    ∃ a b, c.field? "id" = some a ∧ d.field? "id" = some b ∧ a.same b = true := by
  obtain ⟨a, own, ha, reference, same⟩ := Value.refersTo_iff.mp hc
  obtain ⟨b, own', hb, reference', same'⟩ := Value.refersTo_iff.mp hd
  rw [reference] at reference'
  cases reference'
  exact ⟨a, b, ha, hb, same_trans a own b same (same_comm own b ▸ same')⟩

/-- **No line item refers to two campaigns** where their ids are different. -/
theorem referringPlaces_snd_nodup (distinct : DistinctIds campaigns) :
    ((referringPlaces campaigns lineItems).map Prod.snd).Nodup := by
  rw [List.Nodup, List.pairwise_map]
  refine (referringPlaces_ordered campaigns lineItems).imp_of_mem ?_
  rintro ⟨i, j⟩ ⟨i', j'⟩ mem mem' before same
  have same : j = j' := same
  subst same
  obtain ⟨c, item, hc, hi, refers⟩ := mem_referringPlaces.mp mem
  obtain ⟨d, item', hd, hi', refers'⟩ := mem_referringPlaces.mp mem'
  rw [hi] at hi'
  cases hi'
  have earlier : i < i' := by
    cases before with
    | left _ _ h => exact h
    | right _ h => exact absurd h (Nat.lt_irrefl j)
  obtain ⟨a, b, ha, hb, equal⟩ := Value.same_of_refersTo refers refers'
  obtain ⟨inside, rfl⟩ := List.getElem?_eq_some_iff.mp hc
  obtain ⟨inside', rfl⟩ := List.getElem?_eq_some_iff.mp hd
  have different := List.pairwise_iff_getElem.mp distinct i i' inside inside' earlier a b ha hb
  exact Bool.false_ne_true (different.symm.trans equal)

/-- A line item has one place if it refers to a campaign, and none otherwise. -/
theorem count_referringPlaces (distinct : DistinctIds campaigns) {item : Value} {j : Nat}
    (hi : lineItems[j]? = some item) :
    ((referringPlaces campaigns lineItems).map Prod.snd).count j = if campaigns.any item.refersTo then 1 else 0 := by
  split
  · rename_i refers
    obtain ⟨campaign, hc, refers⟩ := List.any_eq_true.mp refers
    obtain ⟨i, hc⟩ := List.mem_iff_getElem?.mp hc
    have mem : (i, j) ∈ referringPlaces campaigns lineItems := mem_referringPlaces.mpr ⟨campaign, item, hc, hi, refers⟩
    exact List.count_eq_one_of_mem (referringPlaces_snd_nodup distinct) (List.mem_map_of_mem mem)
  · rename_i nobody
    refine List.count_eq_zero_of_not_mem fun mem => nobody ?_
    obtain ⟨⟨i, j'⟩, there, same⟩ := List.mem_map.mp mem
    have same : j' = j := same
    obtain ⟨campaign, item', hc, hi', refers⟩ := mem_referringPlaces.mp (same ▸ there)
    rw [hi] at hi'
    cases hi'
    exact List.any_eq_true.mpr ⟨campaign, List.mem_of_getElem? hc, refers⟩

/-- **Joining yields a join.** Where no two campaigns have equal ids and the line items name each of their fields once, as
    JSON values do, the records are those of the line items that refer to a campaign, each exactly once, in the order
    of the campaigns and then of the line items. -/
theorem merge_isJoin (distinct : DistinctIds campaigns) (named : ∀ item ∈ lineItems, item.NamesOnce) :
    ∃ places, IsJoin campaigns lineItems (merge campaigns lineItems) places := by
  have records : List.Forall₂ (fun p record => ∃ campaign item, campaigns[p.1]? = some campaign ∧
      lineItems[p.2]? = some item ∧ IsRecordOf campaign item record)
      (referringPlaces campaigns lineItems) (merge campaigns lineItems) := by
    rw [merge_eq_map, referringPlaces, List.forall₂_map_left_iff, List.forall₂_map_right_iff, List.forall₂_same]
    rintro ⟨⟨campaign, i⟩, ⟨item, j⟩⟩ mem
    obtain ⟨hc, hi, refers⟩ := mem_referring.mp mem
    exact ⟨campaign, item, hc, hi, recordOf_isRecordOf refers (named item (List.mem_of_getElem? hi))⟩
  exact ⟨referringPlaces campaigns lineItems,
    { ordered := referringPlaces_ordered campaigns lineItems
      matching := fun i j => mem_referringPlaces
      once := fun j item hi => count_referringPlaces distinct hi
      records := records }⟩

/-- Three campaigns, one without an id and one whose id is null, and line items that refer to the others: one with a name
    of its own, one to null, one to nothing, and one that was written with a name twice. -/
theorem merge_isJoin_null :
    let one : Value := .number (.int 1 (by decide))
    let two : Value := .number (.int 2 (by decide))
    let campaigns : List Value := [.object [("id", one), ("name", .string "A"), ("owner", .string "x")],
      .object [("name", .string "B")], .object [("id", .null)]]
    let lineItems : List Value := [.object [("campaign_id", .null)], .object [("campaign_id", two)],
      .object [("campaign_id", one), ("campaign_name", .string "own")],
      Value.normal (.object [("id", two), ("campaign_id", two), ("campaign_id", one)])]
    DistinctIds campaigns ∧ (∀ item ∈ lineItems, item.NamesOnce) ∧ (merge campaigns lineItems).length = 3 ∧
      ∃ places, IsJoin campaigns lineItems (merge campaigns lineItems) places := by
  intro one two campaigns lineItems
  have distinct : DistinctIds campaigns := by
    simp [campaigns, one, DistinctIds, Value.field?, Fields.get?, Value.same]
  have single : ∀ name v, (Value.object [(name, v)]).NamesOnce := by
    intro name v fields eq
    cases eq
    exact List.nodup_singleton name
  have named : ∀ item ∈ lineItems, item.NamesOnce := by
    refine List.forall_mem_cons.mpr ⟨single _ _, List.forall_mem_cons.mpr ⟨single _ _, List.forall_mem_cons.mpr ⟨?_,
      List.forall_mem_singleton.mpr (Value.namesOnce_normal _)⟩⟩⟩
    intro fields eq
    cases eq
    decide
  exact ⟨distinct, named, by decide, merge_isJoin distinct named⟩

end Rulebook
