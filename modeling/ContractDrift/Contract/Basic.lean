import ContractDrift.Contract.Field
import ContractDrift.Contract.Server

/-!
# Contracts

A data contract: what it is called and who answers for it, where the data is offered, and the
models with their fields. Servers, models, fields and rules keep the order in which they are
declared.

* `Identity`, `Terms`, `Model`, `Contract`.
* `Model.primaryKeyColumns` — the declared key, or the fields marked as primary.
-/

namespace ContractDrift

/-- Who to ask about a contract. -/
structure Contact where
  name : Option String := none
  url : Option String := none
  email : Option String := none
  deriving DecidableEq, Repr, Inhabited

/-- The description of a contract. Its version is reported and never weighed. -/
structure Info where
  title : String
  version : String
  description : Option String := none
  owner : Option String := none
  contact : Option Contact := none
  deriving DecidableEq, Repr, Inhabited

/-- What identifies a contract. -/
structure Identity where
  /-- The version of the contract format. -/
  specification : String
  id : String
  info : Info
  deriving DecidableEq, Repr, Inhabited

/-- The terms of use. -/
structure Terms where
  usage : Option String := none
  limitations : Option String := none
  billing : Option String := none
  noticePeriod : Option String := none
  deriving DecidableEq, Repr, Inhabited

/-- One dataset of a contract: a table, a view, a topic, a file. -/
structure Model where
  name : String
  /-- What the dataset is. -/
  type : Option String := none
  title : Option String := none
  description : Option String := none
  /-- The names of the key columns, if the model declares them. -/
  primaryKey : Option (List String) := none
  fields : List Field := []
  quality : List QualityRule := []
  tags : List String := []
  deriving Inhabited

namespace Model

/-- The key columns: those declared, else the fields marked as primary. -/
def primaryKeyColumns (m : Model) : List String :=
  match m.primaryKey with
  | some columns => columns
  | none => (m.fields.filter fun f => f.attributes.primary).map Field.name

/-- The first field of the model with a name. -/
def field? (m : Model) (name : String) : Option Field := Field.find? name m.fields

end Model

/-- A data contract. -/
structure Contract extends Identity where
  terms : Option Terms := none
  servers : List Server := []
  models : List Model := []
  /-- The rules about the contract as a whole. -/
  quality : List QualityRule := []
  deriving Inhabited

namespace Contract

/-- The format version of contracts that state none. -/
def defaultSpecification : String := "1.1.0"

/-- A contract without servers, models and rules. -/
def named (id title version : String) : Contract :=
  { specification := defaultSpecification, id, info := { title, version } }

/-- The first model with a name. -/
def model? (c : Contract) (name : String) : Option Model := c.models.find? fun m => m.name = name

/-- The names of the models. -/
def modelNames (c : Contract) : List String := c.models.map Model.name

end Contract

end ContractDrift
