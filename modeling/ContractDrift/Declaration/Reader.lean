import ContractDrift.Declaration.Basic
import ContractDrift.Yaml.Slot

/-!
# Reading declarations

The readers of contract documents. A key that no slot has is passed over, and its value is not
looked at. A contract document is read as written; a document that a field refers to is read as
typed. Quality rules and the free keywords of servers are always typed, and no tag of the document's
own may occur in them.

* `ContractDeclaration.read?` — the declaration in a contract document.
* `FieldDeclaration.read?` — the declaration of a field.
-/

namespace ContractDrift

open Yaml (Tree Reading slot? optionalSlot? listSlot?)

/-! ## Quality rules -/

/-- The keys of a rule that are not free. -/
def RuleDeclaration.keys : List String :=
  ["name", "type", "metric", "rule", "description", "mustBe", "mustBeGreaterThan",
    "mustBeGreaterThanOrEqualTo", "mustBeGreaterOrEqualTo", "mustBeLessThan",
    "mustBeLessThanOrEqualTo", "mustBeLessOrEqualTo", "mustBeBetween", "unit"]

/-- The free keywords of a record. -/
def freeKeywords? (keys : List String) (entries : List (String × Tree)) : Option Parameters := do
  let free ← (entries.filter fun e => !keys.contains e.1).mapM fun (k, t) => do
    let v ← t.json? .typed
    some (k, v)
  some (Entries.ofList free)

/-- A quality rule. -/
def RuleDeclaration.read? (t : Tree) : Option RuleDeclaration :=
  match t with
  | .mapping _ entries => do
    let es ← Tree.keyed? .typed entries
    let text (keys : List String) := optionalSlot? .typed keys (Tree.text? .typed) es
    let number (keys : List String) := optionalSlot? .typed keys (Tree.real? .typed) es
    let name ← text ["name"]
    let type ← text ["type"]
    let metric ← text ["metric", "rule"]
    let description ← text ["description"]
    let mustBe ← number ["mustBe"]
    let mustBeGreaterThan ← number ["mustBeGreaterThan"]
    let mustBeAtLeast ← number ["mustBeGreaterThanOrEqualTo", "mustBeGreaterOrEqualTo"]
    let mustBeLessThan ← number ["mustBeLessThan"]
    let mustBeAtMost ← number ["mustBeLessThanOrEqualTo", "mustBeLessOrEqualTo"]
    let mustBeBetween ←
      optionalSlot? .typed ["mustBeBetween"] (Tree.list? .typed (Tree.real? .typed)) es
    let unit ← text ["unit"]
    let parameters ← freeKeywords? RuleDeclaration.keys es
    some {
      name, type, metric, description, mustBe, mustBeGreaterThan, mustBeAtLeast, mustBeLessThan,
      mustBeAtMost, mustBeBetween, unit, parameters }
  | _ => none

/-- The rules of a quality section: a list of rules or a single one. -/
def RuleDeclaration.readSection? (t : Tree) : Option (List RuleDeclaration) :=
  if t.hasLocal then none
  else
    match t with
    | .sequence _ items => items.mapM RuleDeclaration.read?
    | t => (RuleDeclaration.read? t).map fun rule => [rule]

/-- The quality section of a record. -/
def qualitySlot? (reading : Reading) (entries : List (String × Tree)) :
    Option (Option (List RuleDeclaration)) :=
  optionalSlot? reading ["quality"] RuleDeclaration.readSection? entries

/-! ## Fields -/

/-- The keywords that only a scalar field may have. -/
def ScalarKeywords.read? (reading : Reading) (entries : List (String × Tree)) :
    Option ScalarKeywords := do
  let text (key : String) := optionalSlot? reading [key] (Tree.text? reading) entries
  let count (key : String) (limit : Nat) :=
    optionalSlot? reading [key] (Tree.count? reading limit) entries
  let number (key : String) := optionalSlot? reading [key] (Tree.real? reading) entries
  let minLength ← count "minLength" Text.limit64
  let maxLength ← count "maxLength" Text.limit64
  let pattern ← text "pattern"
  let format ← text "format"
  let minimum ← number "minimum"
  let maximum ← number "maximum"
  let exclusiveMinimum ← number "exclusiveMinimum"
  let exclusiveMaximum ← number "exclusiveMaximum"
  let allowed ← optionalSlot? reading ["enum"] (Tree.list? reading (Tree.json? reading)) entries
  let precision ← count "precision" Text.limit32
  let scale ← count "scale" Text.limit32
  some {
    minLength, maxLength, pattern, format, minimum, maximum, exclusiveMinimum, exclusiveMaximum,
    allowed, precision, scale }

/-- The keywords of a field. -/
def FieldKeywords.read? (reading : Reading) (entries : List (String × Tree)) :
    Option FieldKeywords := do
  let text (key : String) := optionalSlot? reading [key] (Tree.text? reading) entries
  let flag (keys : List String) := optionalSlot? reading keys (Tree.truth? reading) entries
  let value (key : String) := optionalSlot? reading [key] (Tree.json? reading) entries
  let reference ← text "$ref"
  let type ← text "type"
  let required ← flag ["required"]
  let unique ← flag ["unique"]
  let primary ← flag ["primary", "primaryKey"]
  let references ← text "references"
  let default? ← value "default"
  let title ← text "title"
  let description ← text "description"
  let scalar ← ScalarKeywords.read? reading entries
  let quality ← qualitySlot? reading entries
  let tags ← listSlot? reading ["tags"] (Tree.text? reading) entries
  let pii ← flag ["pii"]
  let classification ← text "classification"
  let example? ← value "example"
  some {
    reference, type, required, unique, primary, references, default?, title, description, scalar,
    quality, tags, pii, classification, example? }

/-- The value in an optional slot, with the proof that it is a part of the record. -/
def optionalPart? (reading : Reading) (key : String) (entries : List (String × Tree)) :
    Option (Option { t : Tree // ∃ k, (k, t) ∈ entries }) :=
  match h : slot? [key] entries with
  | none => none
  | some none => some none
  | some (some t) =>
    (t.isNull? reading).map fun absent =>
      if absent then none else some ⟨t, Yaml.mem_of_slot? h⟩

/-- The entries of the mapping from names under a key, with the proof that they are parts of the
record. -/
def namedParts? (reading : Reading) (key : String) (entries : List (String × Tree)) :
    Option (List (String × { t : Tree // ∃ e ∈ entries, sizeOf t < sizeOf e.2 })) :=
  match h : slot? [key] entries with
  | none => none
  | some none => some []
  | some (some t) =>
    match h' : t.named? reading with
    | none => none
    | some parts => some (parts.attach.map fun ⟨e, he⟩ =>
        (e.1, ⟨e.2,
          let ⟨k, hk⟩ := Yaml.mem_of_slot? h
          ⟨(k, t), hk, Tree.sizeOf_lt_of_named? h' he⟩⟩))

/-- The declaration of a field. -/
def FieldDeclaration.read? (reading : Reading) (t : Tree) : Option FieldDeclaration :=
  match _record : t.record? reading with
  | none => none
  | some entries => do
    let keywords ← FieldKeywords.read? reading entries
    let parts ← namedParts? reading "fields" entries
    let fields ← parts.mapM fun (name, ⟨u, _⟩) => do
      let f ← FieldDeclaration.read? reading u
      some (name, f)
    match ← optionalPart? reading "items" entries with
    | none => some { keywords, fields }
    | some ⟨u, _⟩ => do
      let items ← FieldDeclaration.read? reading u
      some { keywords, items := some items, fields }
termination_by sizeOf t
decreasing_by
  · rename_i _inside
    obtain ⟨e, he, hlt⟩ := _inside
    have := Tree.sizeOf_lt_of_record? _record he
    omega
  · rename_i _inside
    obtain ⟨k, hk⟩ := _inside
    exact Tree.sizeOf_lt_of_record? _record hk

/-! ## Contracts -/

/-- The mapping from names under a key, each entry read by `read`. -/
def namedSlot? {α : Type} (reading : Reading) (key : String) (read : Tree → Option α)
    (entries : List (String × Tree)) : Option (List (String × α)) :=
  match slot? [key] entries with
  | none => none
  | some none => some []
  | some (some t) => do
    let parts ← t.named? reading
    parts.mapM fun (name, u) => do
      let a ← read u
      some (name, a)

/-- A text in a slot that may be missing. -/
def textSlot? (key : String) (entries : List (String × Tree)) : Option (Option String) :=
  optionalSlot? .written [key] (Tree.text? .written) entries

/-- A server. -/
def ServerDeclaration.read? (t : Tree) : Option ServerDeclaration := do
  let es ← t.record? .written
  let type ← textSlot? "type" es
  let description ← textSlot? "description" es
  let parameters ← freeKeywords? ["type", "description"] es
  some { type, description, parameters }

/-- A model. -/
def ModelDeclaration.read? (t : Tree) : Option ModelDeclaration := do
  let es ← t.record? .written
  let type ← textSlot? "type" es
  let title ← textSlot? "title" es
  let description ← textSlot? "description" es
  let primaryKey ← optionalSlot? .written ["primaryKey"] (Tree.texts? .written) es
  let fields ← namedSlot? .written "fields" (FieldDeclaration.read? .written) es
  let quality ← qualitySlot? .written es
  let tags ← listSlot? .written ["tags"] (Tree.text? .written) es
  some { type, title, description, primaryKey, fields, quality, tags }

/-- Who to ask about a contract. -/
def Contact.read? (t : Tree) : Option Contact := do
  let es ← t.record? .written
  let name ← textSlot? "name" es
  let url ← textSlot? "url" es
  let email ← textSlot? "email" es
  some { name, url, email }

/-- The description of a contract. -/
def InfoDeclaration.read? (t : Tree) : Option InfoDeclaration := do
  let es ← t.record? .written
  let title ← textSlot? "title" es
  let version ← textSlot? "version" es
  let description ← textSlot? "description" es
  let owner ← textSlot? "owner" es
  let contact ← optionalSlot? .written ["contact"] Contact.read? es
  some { title, version, description, owner, contact }

/-- The terms of use. -/
def Terms.read? (t : Tree) : Option Terms := do
  let es ← t.record? .written
  let usage ← textSlot? "usage" es
  let limitations ← textSlot? "limitations" es
  let billing ← textSlot? "billing" es
  let noticePeriod ← textSlot? "noticePeriod" es
  some { usage, limitations, billing, noticePeriod }

/-- The description in a record; a missing one says nothing. -/
def infoSlot? (entries : List (String × Tree)) : Option InfoDeclaration :=
  match slot? ["info"] entries with
  | none => none
  | some none => some {}
  | some (some t) => InfoDeclaration.read? t

/-- The declaration in a contract document. -/
def ContractDeclaration.ofTree? (t : Tree) : Option ContractDeclaration := do
  let es ← t.record? .written
  let specification ← textSlot? "dataContractSpecification" es
  let id ← textSlot? "id" es
  let info ← infoSlot? es
  let terms ← optionalSlot? .written ["terms"] Terms.read? es
  let servers ← namedSlot? .written "servers" ServerDeclaration.read? es
  let models ← namedSlot? .written "models" ModelDeclaration.read? es
  let definitions ← namedSlot? .written "definitions" (FieldDeclaration.read? .written) es
  let quality ← qualitySlot? .written es
  some { specification, id, info, terms, servers, models, definitions, quality }

/-- The declaration in the text of a contract document; a text of comments declares nothing. -/
def ContractDeclaration.read? (text : String) : Option ContractDeclaration := do
  match ← Yaml.Document.read? text with
  | .empty => some {}
  | .root t => ContractDeclaration.ofTree? t

end ContractDrift
