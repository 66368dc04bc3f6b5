import ContractDrift.Contract.Basic
import ContractDrift.Json.Record

/-!
# Reading the written form of a contract

The readers that belong to the writers of the written form. A key that no slot has is passed over;
a slot with a value of another sort makes the whole unreadable. All parts but fields may also be
given as the list of the values in their slots. The shape of a field is known only when all of its
slots have been seen, so what depends on it is `held` back, with all that is inside.

* `Contract.ofJson?`, `Field.ofJson?`, … — one reader for each part.
* `QualityRule.read?`, `Field.read?` — the same for values that may be held back.
-/

namespace ContractDrift

open Json (required optional defaulted asText? asBool? asCount? asReal? asList? asTexts?
  asMembers? asParameters? asAny?)

/-- The bound of an object. -/
def Bound.ofJson? (v : Json) : Option Bound := do
  let v ← v.asRecord? ["value", "inclusive"] 2
  let value ← v.required "value" asReal?
  let inclusive ← v.required "inclusive" asBool?
  some { value, inclusive }

/-- The threshold of an object. -/
def Threshold.ofJson? (v : Json) : Option Threshold := do
  let v ← v.asRecord? ["lower", "upper"] 2
  let lower ← v.optional "lower" Bound.ofJson?
  let upper ← v.optional "upper" Bound.ofJson?
  some { lower, upper }

/-- The constraints of an object. -/
def Constraints.ofJson? (v : Json) : Option Constraints := do
  let v ← v.asRecord? ["minLength", "maxLength", "pattern", "format", "minimum",
    "maximum", "exclusiveMinimum", "exclusiveMaximum", "enum"] 9
  let minLength ← v.optional "minLength" asCount?
  let maxLength ← v.optional "maxLength" asCount?
  let pattern ← v.optional "pattern" asText?
  let format ← v.optional "format" asText?
  let minimum ← v.optional "minimum" asReal?
  let maximum ← v.optional "maximum" asReal?
  let exclusiveMinimum ← v.optional "exclusiveMinimum" asReal?
  let exclusiveMaximum ← v.optional "exclusiveMaximum" asReal?
  let allowed ← v.optional "enum" asMembers?
  some {
    minLength, maxLength, pattern, format, minimum, maximum, exclusiveMinimum, exclusiveMaximum,
    allowed }

/-- The kind of a quality rule, from a value that may be held back. -/
def QualityKind.read? (held : Bool) (v : Json) : Option QualityKind :=
  (v.asWord? held).bind QualityKind.ofName?

/-- The kind of a quality rule. -/
def QualityKind.ofJson? : Json → Option QualityKind := QualityKind.read? false

/-- The quality rule of an object that may be held back. -/
def QualityRule.read? (held : Bool) (v : Json) : Option QualityRule := do
  let v ← v.asRecord? ["name", "kind", "threshold", "description", "params"] 4
  let name ← v.optional "name" asText?
  let kind ← v.required "kind" (QualityKind.read? held)
  let threshold ← v.defaulted "threshold" {} Threshold.ofJson?
  let description ← v.optional "description" asText?
  let parameters ← v.defaulted "params" .empty asParameters?
  some { name, kind, threshold, description, parameters }

/-- The quality rule of an object. -/
def QualityRule.ofJson? : Json → Option QualityRule := QualityRule.read? false

/-- The platform that a text value names. -/
def ServerType.ofJson? (v : Json) : Option ServerType := v.asText?.map ServerType.parse

/-- The server of an object. -/
def Server.ofJson? (v : Json) : Option Server := do
  let v ← v.asRecord? ["name", "type", "description", "params"] 3
  let name ← v.required "name" asText?
  let type ← v.required "type" ServerType.ofJson?
  let description ← v.optional "description" asText?
  let parameters ← v.defaulted "params" .empty asParameters?
  some { name, type, description, parameters }

/-- The metadata of a field. -/
def FieldMetadata.ofJson? (v : Json) : Option FieldMetadata := do
  let v ← v.asRecord? ["tags", "pii", "classification", "example"] 4
  let tags ← v.defaulted "tags" [] asTexts?
  let pii ← v.optional "pii" asBool?
  let classification ← v.optional "classification" asText?
  let example? ← v.optional "example" asAny?
  some { tags, pii, classification, example? }

/-- What a field has whatever its shape. -/
def FieldAttributes.read? (held : Bool) (v : Json) : Option FieldAttributes := do
  let name ← v.required "name" asText?
  let required ← v.defaulted "required" false asBool?
  let unique ← v.defaulted "unique" false asBool?
  let primary ← v.defaulted "primary" false asBool?
  let references ← v.optional "references" asText?
  let default? ← v.optional "default" asAny?
  let title ← v.optional "title" asText?
  let description ← v.optional "description" asText?
  let quality ← v.defaulted "quality" [] (asList? (QualityRule.read? held))
  let metadata ← v.defaulted "metadata" {} FieldMetadata.ofJson?
  some {
    name, required, unique, primary, references, default?, title, description, quality, metadata }

/-- Whether the shape of a field is nested, by its word or by its number. -/
def Field.isNested? : Json → Option Bool
  | .text "scalar" => some false
  | .text "nested" => some true
  | .int 0 => some false
  | .int 1 => some true
  | _ => none

/-- The container that a word names. -/
def Container.ofName? : String → Option Container
  | "object" => some .object
  | "array" => some .array
  | _ => none

/-- The container of a nested field. -/
def Container.ofJson? (v : Json) : Option Container := (v.asWord? true).bind Container.ofName?

/-- The data type that a text value spells. -/
def DataType.ofJson? (v : Json) : Option DataType := v.asText?.bind DataType.parse?

/-- The value under a key of a list of entries is smaller than the list. -/
theorem sizeOf_lookupEntry_lt {key : String} {v : Json} :
    ∀ {l : List (String × Json)}, lookupEntry key l = some v → sizeOf v < sizeOf l
  | (k, w) :: rest, h => by
    unfold lookupEntry at h
    split at h
    · cases h
      simp
      omega
    · have := sizeOf_lookupEntry_lt h
      simp
      omega

mutual

/-- The field of an object that may be held back. What depends on its shape always is. -/
def Field.read? (held : Bool) (v : Json) : Option Field := do
  let attributes ← FieldAttributes.read? held v
  match ← v.required "shape" Field.isNested? with
  | false =>
    let type ← v.required "type" DataType.ofJson?
    let constraints ← v.defaulted "constraints" {} Constraints.ofJson?
    some (.scalar attributes type constraints)
  | true =>
    let container ← v.required "container" Container.ofJson?
    match v with
    | .object entries =>
      match _found : lookupEntry "fields" entries with
      | none => some (.nested attributes container [])
      | some (.list items) => do
        let fields ← Field.readList? true items
        some (.nested attributes container fields)
      | some _ => none
    | _ => none
termination_by sizeOf v
decreasing_by
  have := sizeOf_lookupEntry_lt _found
  simp at this ⊢
  omega

/-- The fields of a list of objects that may be held back. -/
def Field.readList? (held : Bool) : List Json → Option (List Field)
  | [] => some []
  | v :: rest => do
    let f ← Field.read? held v
    let fs ← Field.readList? held rest
    some (f :: fs)
termination_by l => sizeOf l

end

/-- The fields of a list value that may be held back. -/
def Field.readFields? (held : Bool) : Json → Option (List Field)
  | .list items => Field.readList? held items
  | _ => none

/-- The field of an object. -/
def Field.ofJson? : Json → Option Field := Field.read? false

/-- The fields of a list value. -/
def Field.asFields? : Json → Option (List Field) := Field.readFields? false

/-- The model of an object. -/
def Model.ofJson? (v : Json) : Option Model := do
  let v ← v.asRecord?
    ["name", "type", "title", "description", "primaryKey", "fields", "quality", "tags"] 5
  let name ← v.required "name" asText?
  let type ← v.optional "type" asText?
  let title ← v.optional "title" asText?
  let description ← v.optional "description" asText?
  let primaryKey ← v.optional "primaryKey" asTexts?
  let fields ← v.defaulted "fields" [] Field.asFields?
  let quality ← v.defaulted "quality" [] (asList? QualityRule.ofJson?)
  let tags ← v.defaulted "tags" [] asTexts?
  some { name, type, title, description, primaryKey, fields, quality, tags }

/-- The contact of an object. -/
def Contact.ofJson? (v : Json) : Option Contact := do
  let v ← v.asRecord? ["name", "url", "email"] 3
  let name ← v.optional "name" asText?
  let url ← v.optional "url" asText?
  let email ← v.optional "email" asText?
  some { name, url, email }

/-- The description of a contract. -/
def Info.ofJson? (v : Json) : Option Info := do
  let v ← v.asRecord? ["title", "version", "description", "owner", "contact"] 5
  let title ← v.required "title" asText?
  let version ← v.required "version" asText?
  let description ← v.optional "description" asText?
  let owner ← v.optional "owner" asText?
  let contact ← v.optional "contact" Contact.ofJson?
  some { title, version, description, owner, contact }

/-- The terms of use. -/
def Terms.ofJson? (v : Json) : Option Terms := do
  let v ← v.asRecord? ["usage", "limitations", "billing", "noticePeriod"] 4
  let usage ← v.optional "usage" asText?
  let limitations ← v.optional "limitations" asText?
  let billing ← v.optional "billing" asText?
  let noticePeriod ← v.optional "noticePeriod" asText?
  some { usage, limitations, billing, noticePeriod }

/-- The contract of an object. -/
def Contract.ofJson? (v : Json) : Option Contract := do
  let v ← v.asRecord? ["specification", "id", "info", "terms", "servers", "models", "quality"] 4
  let specification ← v.required "specification" asText?
  let id ← v.required "id" asText?
  let info ← v.required "info" Info.ofJson?
  let terms ← v.optional "terms" Terms.ofJson?
  let servers ← v.defaulted "servers" [] (asList? Server.ofJson?)
  let models ← v.defaulted "models" [] (asList? Model.ofJson?)
  let quality ← v.defaulted "quality" [] (asList? QualityRule.ofJson?)
  some { specification, id, info, terms, servers, models, quality }

end ContractDrift
