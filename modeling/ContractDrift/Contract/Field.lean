import ContractDrift.Contract.Constraints
import ContractDrift.Contract.DataType
import ContractDrift.Contract.Quality

/-!
# Fields

A field of a model is a scalar with a data type and constraints, or a container with fields of its
own. The two shapes exclude each other, so each has its own constructor; what every field has
besides is one record.

* `Field` — a field, `FieldAttributes` — what does not depend on its shape.
* `Field.children` — the fields directly inside, none for a scalar.
* `Field.typeLabel` — the type as it is shown.
-/

namespace ContractDrift

/-- What holds the fields of a nested field. -/
inductive Container where
  | object
  /-- An array whose items are objects. -/
  | array
  deriving DecidableEq, Repr, Inhabited

namespace Container

/-- The name in the written form. -/
def name : Container → String
  | .object => "object"
  | .array => "array"

/-- The type shown. -/
def label : Container → String
  | .object => "object"
  | .array => "array<object>"

end Container

/-- Descriptive data about a field that never affects its values. -/
structure FieldMetadata where
  tags : List String := []
  /-- Whether the values are personal data. -/
  pii : Option Bool := none
  classification : Option String := none
  example? : Option Json := none
  deriving Inhabited

/-- What a field has whatever its shape. -/
structure FieldAttributes where
  name : String
  required : Bool := false
  unique : Bool := false
  primary : Bool := false
  /-- The field of a model that the values point to, written `model.field`. -/
  references : Option String := none
  default? : Option Json := none
  title : Option String := none
  description : Option String := none
  quality : List QualityRule := []
  metadata : FieldMetadata := {}
  deriving Inhabited

/-- A field of a model. -/
inductive Field where
  | scalar (attributes : FieldAttributes) (type : DataType) (constraints : Constraints)
  | nested (attributes : FieldAttributes) (container : Container) (fields : List Field)
  deriving Inhabited

namespace Field

/-- What the field has whatever its shape. -/
def attributes : Field → FieldAttributes
  | .scalar attributes _ _ => attributes
  | .nested attributes _ _ => attributes

/-- The field with other attributes. -/
def withAttributes (attributes : FieldAttributes) : Field → Field
  | .scalar _ type constraints => .scalar attributes type constraints
  | .nested _ container fields => .nested attributes container fields

/-- The name of the field. -/
def name (f : Field) : String := f.attributes.name

/-- The fields directly inside. -/
def children : Field → List Field
  | .scalar .. => []
  | .nested _ _ fields => fields

/-- The data type of a scalar field. -/
def dataType? : Field → Option DataType
  | .scalar _ type _ => some type
  | .nested .. => none

/-- The constraints of a scalar field. -/
def constraints? : Field → Option Constraints
  | .scalar _ _ constraints => some constraints
  | .nested .. => none

/-- Whether nulls are accepted. -/
def isNullable (f : Field) : Bool := !f.attributes.required

/-- The type as it is shown. -/
def typeLabel : Field → String
  | .scalar _ type _ => type.text
  | .nested _ container _ => container.label

/-- The field with other constraints, if it is scalar. -/
def withConstraints (constraints : Constraints) : Field → Field
  | .scalar attributes type _ => .scalar attributes type constraints
  | f => f

/-- The field with other fields inside, if it is nested. -/
def withChildren (fields : List Field) : Field → Field
  | .nested attributes container _ => .nested attributes container fields
  | f => f

/-- The first field with a name. -/
def find? (name : String) (fields : List Field) : Option Field :=
  fields.find? fun f => f.name = name

@[simp] theorem attributes_scalar (a : FieldAttributes) (t : DataType) (c : Constraints) :
    (Field.scalar a t c).attributes = a := rfl

@[simp] theorem attributes_nested (a : FieldAttributes) (k : Container) (fs : List Field) :
    (Field.nested a k fs).attributes = a := rfl

@[simp] theorem attributes_withAttributes (a : FieldAttributes) (f : Field) :
    (f.withAttributes a).attributes = a := by
  cases f <;> rfl

end Field

end ContractDrift
