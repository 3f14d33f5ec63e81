import Rulebook.Rule.Encoding

/-!
# `Rulebook.Document` — documents of rules and of records

A document of rules is a list of entries, or an object that holds one under `rules`. Each entry is decoded on
its own; an entry that is no rule is set aside with its place. A document of records is a list of records,
or a list of campaigns and one of line items, which are joined.

## Contents
* `RuleBatch.ofDocument` — the rules of a document
* `merge` — campaigns joined with their line items
* `recordsOfDocument` — the records of a document
-/

namespace Rulebook

/-- A document that has neither form of its kind. -/
inductive DocumentError where
  | noRules
  | noRecords
  deriving DecidableEq

/-- What was expected instead. -/
def DocumentError.message : DocumentError → String
  | noRules => "期望规则数组或包含 rules 数组的对象"
  | noRecords => "期望记录数组或包含 campaigns 与 line_items 数组的对象"

/-! ## Rules -/

/-- An entry that is no rule: its place, and its name if it has one. -/
structure Rejected where
  index : Nat
  name : Option String
  deriving DecidableEq

/-- The rules of a document, and the entries that are none. -/
structure RuleBatch where
  definitions : List RuleDefinition
  rejected : List Rejected

/-- The rule of an entry: in a row, what stands under `rule`; otherwise the entry itself. -/
def unwrapRow (entry : Value) : Value :=
  match entry.field? "rule" with
  | some (.object fields) => .object fields
  | _ => entry

/-- The text under `name` of an entry. -/
def entryName? (entry : Value) : Option String := (entry.field? "name").bind Value.text?

/-- Entries decoded one by one, from the one at position `i` on. -/
def RuleBatch.ofEntries (i : Nat) : List Value → RuleBatch
  | [] => ⟨[], []⟩
  | entry :: rest =>
    let row := unwrapRow entry
    let batch := RuleBatch.ofEntries (i + 1) rest
    match RuleDefinition.decode? row with
    | some d => { batch with definitions := d :: batch.definitions }
    | none => { batch with rejected := ⟨i, entryName? row⟩ :: batch.rejected }

/-- The rules of a document. -/
def RuleBatch.ofDocument (document : Value) : Except DocumentError RuleBatch :=
  match document with
  | .array entries => .ok (ofEntries 0 entries)
  | document =>
    match document.field? "rules" with
    | some (.array entries) => .ok (ofEntries 0 entries)
    | _ => .error .noRules

/-! ## Records -/

/-- The record of a line item of a campaign. The fields of the line item come last and win. -/
def joined (campaignId campaignName lineItem : Value) : Value :=
  let own := match lineItem with
    | .object fields => fields
    | _ => []
  .object (Fields.extend (Fields.ofList [("campaign_id", campaignId), ("campaign_name", campaignName)]) own)

/-- The records of a campaign: one for each line item that refers to it. -/
def recordsOf (lineItems : List Value) (campaign : Value) : List Value :=
  match campaign.field? "id" with
  | none => []
  | some id =>
    let name := (campaign.field? "name").getD (.string "")
    (lineItems.filter fun item => (item.field? "campaign_id").any id.same).map (joined id name)

/-- Campaigns joined with their line items, in the order of the campaigns. -/
def merge (campaigns lineItems : List Value) : List Value := campaigns.flatMap (recordsOf lineItems)

/-- The records of a document. -/
def recordsOfDocument (document : Value) : Except DocumentError (List Value) :=
  match document with
  | .array records => .ok records
  | document =>
    match document.field? "campaigns", document.field? "line_items" with
    | some (.array campaigns), some (.array lineItems) => .ok (merge campaigns lineItems)
    | _, _ => .error .noRecords

end Rulebook
