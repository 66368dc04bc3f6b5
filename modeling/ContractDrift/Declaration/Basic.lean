import ContractDrift.Contract.Basic

/-!
# Declarations

A contract document as it is written: mappings from names, in which almost everything may be left
out. A declaration becomes part of a contract only when it is loaded; until then a field may refer
to a definition instead of having a type, and names may repeat.

* `FieldDeclaration`, `ModelDeclaration`, `ServerDeclaration`, `RuleDeclaration`,
  `ContractDeclaration`.
* `FieldDeclaration.inherit` — a field with what a definition adds to it.
-/

namespace ContractDrift

/-- A quality rule as it is written. -/
structure RuleDeclaration where
  name : Option String := none
  /-- The sort of rule, or the engine whose terms it uses. -/
  type : Option String := none
  metric : Option String := none
  description : Option String := none
  mustBe : Option Binary64 := none
  mustBeGreaterThan : Option Binary64 := none
  mustBeAtLeast : Option Binary64 := none
  mustBeLessThan : Option Binary64 := none
  mustBeAtMost : Option Binary64 := none
  mustBeBetween : Option (List Binary64) := none
  unit : Option String := none
  /-- All other keywords. -/
  parameters : Parameters := .empty
  deriving Inhabited

/-- The keywords that only a scalar field may have. -/
structure ScalarKeywords where
  minLength : Option Nat := none
  maxLength : Option Nat := none
  pattern : Option String := none
  format : Option String := none
  minimum : Option Binary64 := none
  maximum : Option Binary64 := none
  exclusiveMinimum : Option Binary64 := none
  exclusiveMaximum : Option Binary64 := none
  allowed : Option (List Json) := none
  precision : Option Nat := none
  scale : Option Nat := none
  deriving Inhabited

namespace ScalarKeywords

/-- Whether no keyword is there. -/
def isEmpty (k : ScalarKeywords) : Bool :=
  k.minLength.isNone && k.maxLength.isNone && k.pattern.isNone && k.format.isNone &&
    k.minimum.isNone && k.maximum.isNone && k.exclusiveMinimum.isNone &&
    k.exclusiveMaximum.isNone && k.allowed.isNone && k.precision.isNone && k.scale.isNone

/-- The keywords, and where one is missing that of a definition. -/
def inherit (k d : ScalarKeywords) : ScalarKeywords where
  minLength := k.minLength.or d.minLength
  maxLength := k.maxLength.or d.maxLength
  pattern := k.pattern.or d.pattern
  format := k.format.or d.format
  minimum := k.minimum.or d.minimum
  maximum := k.maximum.or d.maximum
  exclusiveMinimum := k.exclusiveMinimum.or d.exclusiveMinimum
  exclusiveMaximum := k.exclusiveMaximum.or d.exclusiveMaximum
  allowed := k.allowed.or d.allowed
  precision := k.precision.or d.precision
  scale := k.scale.or d.scale

end ScalarKeywords

/-- The keywords of a field apart from the fields inside of it. -/
structure FieldKeywords where
  /-- The definition that the field refers to. -/
  reference : Option String := none
  type : Option String := none
  required : Option Bool := none
  unique : Option Bool := none
  primary : Option Bool := none
  references : Option String := none
  default? : Option Json := none
  title : Option String := none
  description : Option String := none
  scalar : ScalarKeywords := {}
  quality : Option (List RuleDeclaration) := none
  tags : List String := []
  pii : Option Bool := none
  classification : Option String := none
  example? : Option Json := none
  deriving Inhabited

namespace FieldKeywords

/-- The keywords, and where one is missing that of a definition. A reference is not inherited. -/
def inherit (k d : FieldKeywords) : FieldKeywords where
  reference := k.reference
  type := k.type.or d.type
  required := k.required.or d.required
  unique := k.unique.or d.unique
  primary := k.primary.or d.primary
  references := k.references.or d.references
  default? := k.default?.or d.default?
  title := k.title.or d.title
  description := k.description.or d.description
  scalar := k.scalar.inherit d.scalar
  quality := k.quality.or d.quality
  tags := if k.tags.isEmpty then d.tags else k.tags
  pii := k.pii.or d.pii
  classification := k.classification.or d.classification
  example? := k.example?.or d.example?

end FieldKeywords

/-- A field, or a definition of one, as it is written. -/
structure FieldDeclaration where
  keywords : FieldKeywords := {}
  /-- The items of an array. -/
  items : Option FieldDeclaration := none
  /-- The fields inside, by name. -/
  fields : List (String × FieldDeclaration) := []
  deriving Inhabited

namespace FieldDeclaration

/-- The field with all that a definition has and the field does not. -/
def inherit (f d : FieldDeclaration) : FieldDeclaration where
  keywords := f.keywords.inherit d.keywords
  items := f.items.or d.items
  fields := if f.fields.isEmpty then d.fields else f.fields

/-- The field without its reference. -/
def withoutReference (f : FieldDeclaration) : FieldDeclaration :=
  { f with keywords := { f.keywords with reference := none } }

/-- The type as it is compared. -/
def typeWord (f : FieldDeclaration) : Option String := f.keywords.type.map Text.canonical

end FieldDeclaration

/-- A server as it is written. -/
structure ServerDeclaration where
  type : Option String := none
  description : Option String := none
  /-- All other keywords. -/
  parameters : Parameters := .empty
  deriving Inhabited

/-- A model as it is written. -/
structure ModelDeclaration where
  type : Option String := none
  title : Option String := none
  description : Option String := none
  primaryKey : Option (List String) := none
  fields : List (String × FieldDeclaration) := []
  quality : Option (List RuleDeclaration) := none
  tags : List String := []
  deriving Inhabited

/-- The description of a contract as it is written. -/
structure InfoDeclaration where
  title : Option String := none
  version : Option String := none
  description : Option String := none
  owner : Option String := none
  contact : Option Contact := none
  deriving Inhabited

/-- A contract document as it is written. -/
structure ContractDeclaration where
  specification : Option String := none
  id : Option String := none
  info : InfoDeclaration := {}
  terms : Option Terms := none
  servers : List (String × ServerDeclaration) := []
  models : List (String × ModelDeclaration) := []
  /-- The definitions that fields of the document may refer to. -/
  definitions : List (String × FieldDeclaration) := []
  quality : Option (List RuleDeclaration) := none
  deriving Inhabited

end ContractDrift
