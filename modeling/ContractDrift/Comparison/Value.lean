import ContractDrift.Comparison.Change
import ContractDrift.Contract.Encode

/-!
# The two sides of a change as values

A report shows what stood at a path before and after. For a part that came or went this is the part
as it is written; for a difference it is the group of attributes that differs, where an absent
option is shown as `null`.

* `Node.toJson` — a whole part.
* `Node.groupValue` — one group of its attributes.
* `Change.oldValue`, `Change.newValue` — the sides of a change; `null` where there is none.
* `Change.slots` — the change as a record, in the order in which reports show it.
-/

namespace ContractDrift

open Json (optionalText texts ofParameters)

/-- A part as it is written. The identity of a contract shows its description only. -/
def Node.toJson : Node → Json
  | .info i => i.info.toJson
  | .terms t => t.toJson
  | .server s => s.toJson
  | .model m => m.toJson
  | .field f => f.toJson
  | .quality r => r.toJson

/-- Title and description, as reports show them. -/
def describedValue (title description : Option String) : Json :=
  .object [("description", optionalText description), ("title", optionalText title)]

/-- A group of attributes of the identity of a contract. -/
def Identity.groupValue (i : Identity) : Attribute → Json
  | .description => describedValue (some i.info.title) i.info.description
  | _ =>
    .object [
      ("contact", (i.info.contact.map Contact.toJson).getD .null),
      ("id", .text i.id),
      ("owner", optionalText i.info.owner),
      ("specification", .text i.specification),
      ("version", .text i.info.version)]

/-- A group of attributes of a server. -/
def Server.groupValue (s : Server) : Attribute → Json
  | .type => .text s.type.name
  | .description => optionalText s.description
  | _ => ofParameters s.parameters

/-- A group of attributes of a model. -/
def Model.groupValue (m : Model) : Attribute → Json
  | .type => optionalText m.type
  | .primaryKey => (m.primaryKey.map texts).getD .null
  | .description => describedValue m.title m.description
  | _ => texts m.tags

/-- A group of attributes of a quality rule. -/
def QualityRule.groupValue (r : QualityRule) : Attribute → Json
  | .type => .text r.kind.name
  | .threshold => r.threshold.toJson
  | .description => optionalText r.description
  | _ => ofParameters r.parameters

/-- A group of attributes of a field. -/
def Field.groupValue (f : Field) : Attribute → Json
  | .type => .text f.typeLabel
  | .nullability => .object [("required", .bool f.attributes.required)]
  | .uniqueness => .object [("unique", .bool f.attributes.unique)]
  | .primaryKey => .object [("primary", .bool f.attributes.primary)]
  | .constraints => (f.constraints?.map Constraints.toJson).getD .null
  | .references => optionalText f.attributes.references
  | .default => f.attributes.default?.getD .null
  | .description => describedValue f.attributes.title f.attributes.description
  | _ => f.attributes.metadata.toJson

/-- A group of attributes of a part. -/
def Node.groupValue (node : Node) (group : Attribute) : Json :=
  match node with
  | .info i => i.groupValue group
  | .terms t => t.toJson
  | .server s => s.groupValue group
  | .model m => m.groupValue group
  | .field f => f.groupValue group
  | .quality r => r.groupValue group

namespace Change

/-- What a report shows of one side: the group that differs, or the whole part. -/
def sideValue (side : Option Node) (group : Option Attribute) : Json :=
  match side, group with
  | none, _ => .null
  | some node, some group => node.groupValue group
  | some node, none => node.toJson

/-- What stood at the path before. -/
def oldValue (c : Change) : Json := sideValue c.old? c.group?

/-- What stands at the path after. -/
def newValue (c : Change) : Json := sideValue c.new? c.group?

/-- The slots that say which change it is. -/
def headSlots (c : Change) : List (String × Json) :=
  [ ("path", .text c.path.text),
    ("entityKind", .text c.entity.name),
    ("changeKind", .text c.kind.name),
    ("attribute", optionalText (c.group?.map Attribute.name))]

/-- The slots that show both sides, keys in order. -/
def valueSlots (c : Change) : List (String × Json) :=
  [("oldValue", c.oldValue.sorted), ("newValue", c.newValue.sorted)]

/-- The change as a record, in the order in which reports show it. -/
def toJson (c : Change) : Json := .object (c.headSlots ++ c.valueSlots)

theorem oldValue_reverse (c : Change) : c.reverse.oldValue = c.newValue := by
  cases c <;> rfl

theorem newValue_reverse (c : Change) : c.reverse.newValue = c.oldValue := by
  cases c <;> rfl

end Change

/-- A comparison as a record. -/
def Comparison.toJson (c : Comparison) : Json :=
  .object [("changes", .list (c.changes.map Change.toJson))]

end ContractDrift
