import ContractDrift.Contract.Basic
import ContractDrift.Json.Record

/-!
# The written form of a contract

Every part of a contract as a JSON value. Absent options and empty lists are left out, except where
an empty list says something: the models of a contract, the fields of a model, a declared key.
-/

namespace ContractDrift

open Json (slot slotOf slotUnless record texts ofParameters)

/-- A bound as an object. -/
def Bound.toJson (b : Bound) : Json :=
  record [slot "value" (.ofReal b.value), slot "inclusive" (.bool b.inclusive)]

/-- A threshold as an object. -/
def Threshold.toJson (t : Threshold) : Json :=
  record [slotOf "lower" Bound.toJson t.lower, slotOf "upper" Bound.toJson t.upper]

/-- Constraints as an object. -/
def Constraints.toJson (c : Constraints) : Json :=
  record [
    slotOf "minLength" .ofNat c.minLength,
    slotOf "maxLength" .ofNat c.maxLength,
    slotOf "pattern" .text c.pattern,
    slotOf "format" .text c.format,
    slotOf "minimum" .ofReal c.minimum,
    slotOf "maximum" .ofReal c.maximum,
    slotOf "exclusiveMinimum" .ofReal c.exclusiveMinimum,
    slotOf "exclusiveMaximum" .ofReal c.exclusiveMaximum,
    slotOf "enum" (fun s => texts s.toList) c.allowed]

/-- A quality rule as an object. -/
def QualityRule.toJson (r : QualityRule) : Json :=
  record [
    slotOf "name" .text r.name,
    slot "kind" (.text r.kind.name),
    slotUnless "threshold" r.threshold.isUnbounded r.threshold.toJson,
    slotOf "description" .text r.description,
    slotUnless "params" r.parameters.isEmpty (ofParameters r.parameters)]

/-- A server as an object. -/
def Server.toJson (s : Server) : Json :=
  record [
    slot "name" (.text s.name),
    slot "type" (.text s.type.name),
    slotOf "description" .text s.description,
    slotUnless "params" s.parameters.isEmpty (ofParameters s.parameters)]

/-- The metadata of a field as an object. -/
def FieldMetadata.toJson (m : FieldMetadata) : Json :=
  record [
    slotUnless "tags" m.tags.isEmpty (texts m.tags),
    slotOf "pii" .bool m.pii,
    slotOf "classification" .text m.classification,
    slotOf "example" id m.example?]

/-- The slots of a field that do not depend on its shape. -/
def FieldAttributes.slots (a : FieldAttributes) : List (List (String × Json)) :=
  [ slot "name" (.text a.name),
    slot "required" (.bool a.required),
    slot "unique" (.bool a.unique),
    slot "primary" (.bool a.primary),
    slotOf "references" .text a.references,
    slotOf "default" id a.default?,
    slotOf "title" .text a.title,
    slotOf "description" .text a.description,
    slotUnless "quality" a.quality.isEmpty (.list (a.quality.map QualityRule.toJson)),
    slot "metadata" a.metadata.toJson]

mutual

/-- A field as an object; its shape is one of the slots. -/
def Field.toJson : Field → Json
  | .scalar attributes type constraints =>
    record (attributes.slots ++ [
      slot "shape" (.text "scalar"),
      slot "type" (.text type.text),
      slotUnless "constraints" constraints.isEmpty constraints.toJson])
  | .nested attributes container fields =>
    record (attributes.slots ++ [
      slot "shape" (.text "nested"),
      slot "container" (.text container.name),
      slot "fields" (.list (Field.listToJson fields))])

/-- The objects of a list of fields. -/
def Field.listToJson : List Field → List Json
  | [] => []
  | f :: rest => f.toJson :: Field.listToJson rest

end

/-- A model as an object. -/
def Model.toJson (m : Model) : Json :=
  record [
    slot "name" (.text m.name),
    slotOf "type" .text m.type,
    slotOf "title" .text m.title,
    slotOf "description" .text m.description,
    slotOf "primaryKey" texts m.primaryKey,
    slot "fields" (.list (Field.listToJson m.fields)),
    slotUnless "quality" m.quality.isEmpty (.list (m.quality.map QualityRule.toJson)),
    slotUnless "tags" m.tags.isEmpty (texts m.tags)]

/-- A contact as an object. -/
def Contact.toJson (c : Contact) : Json :=
  record [slotOf "name" .text c.name, slotOf "url" .text c.url, slotOf "email" .text c.email]

/-- The description of a contract as an object. -/
def Info.toJson (i : Info) : Json :=
  record [
    slot "title" (.text i.title),
    slot "version" (.text i.version),
    slotOf "description" .text i.description,
    slotOf "owner" .text i.owner,
    slotOf "contact" Contact.toJson i.contact]

/-- The terms of use as an object. -/
def Terms.toJson (t : Terms) : Json :=
  record [
    slotOf "usage" .text t.usage,
    slotOf "limitations" .text t.limitations,
    slotOf "billing" .text t.billing,
    slotOf "noticePeriod" .text t.noticePeriod]

/-- A contract as an object. -/
def Contract.toJson (c : Contract) : Json :=
  record [
    slot "specification" (.text c.specification),
    slot "id" (.text c.id),
    slot "info" c.info.toJson,
    slotOf "terms" Terms.toJson c.terms,
    slotUnless "servers" c.servers.isEmpty (.list (c.servers.map Server.toJson)),
    slot "models" (.list (c.models.map Model.toJson)),
    slotUnless "quality" c.quality.isEmpty (.list (c.quality.map QualityRule.toJson))]

end ContractDrift
