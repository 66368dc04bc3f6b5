import ContractDrift.Contract.Basic
import ContractDrift.Contract.Path
import ContractDrift.Ordered.Entries

/-!
# The index of a contract

Every part of a contract that a comparison speaks about, under its path. A field stands below its
model or the field it is nested in, a rule below what it is about: under its name if it has one,
and otherwise under its kind and its place among the nameless rules of that kind.

* `Node` — a part of a contract, `EntityKind` — what sort of part it is.
* `Contract.nodes` — the parts with their paths, in the order of the contract.
* `Contract.index` — the same as a map. Of parts with the same path, which only repeated names can
  have, the last one stays.
-/

namespace ContractDrift

/-- A part of a contract. -/
inductive Node where
  /-- What identifies the contract. -/
  | info (identity : Identity)
  | terms (terms : Terms)
  | server (server : Server)
  | model (model : Model)
  | field (field : Field)
  | quality (rule : QualityRule)
  deriving Inhabited

/-- The sorts of parts, in the order of reports. -/
inductive EntityKind where
  | model
  | field
  | qualityRule
  | server
  /-- The identity of the contract and its terms. -/
  | metadata
  deriving DecidableEq, Repr, Inhabited

namespace EntityKind

/-- The name shown. -/
def name : EntityKind → String
  | .model => "model"
  | .field => "field"
  | .qualityRule => "quality-rule"
  | .server => "server"
  | .metadata => "metadata"

/-- The place in the order of reports. -/
def rank : EntityKind → Nat
  | .model => 0
  | .field => 1
  | .qualityRule => 2
  | .server => 3
  | .metadata => 4

end EntityKind

namespace Node

/-- The sort of a part. -/
def entity : Node → EntityKind
  | .info _ => .metadata
  | .terms _ => .metadata
  | .server _ => .server
  | .model _ => .model
  | .field _ => .field
  | .quality _ => .qualityRule

/-- Whether other parts stand below one of this sort. -/
def isContainer : Node → Bool
  | .model _ => true
  | .field _ => true
  | _ => false

end Node

/-- The rules of a scope; `earlier` are the kinds of the nameless rules before them. -/
def QualityRule.nodes (scope : Path) :
    (earlier : List QualityKind) → List QualityRule → List (Path × Node)
  | _, [] => []
  | earlier, rule :: rest =>
    match rule.name with
    | some name => (scope ++ [name], .quality rule) :: QualityRule.nodes scope earlier rest
    | none =>
      (scope ++ [rule.kind.name, Text.digits (earlier.count rule.kind)], .quality rule) ::
        QualityRule.nodes scope (rule.kind :: earlier) rest

mutual

/-- A field with all that stands below it; `scope` is the path of the list it is in. -/
def Field.nodes (scope : Path) : Field → List (Path × Node)
  | .scalar attributes type constraints =>
    let path := scope ++ [attributes.name]
    QualityRule.nodes (path ++ ["quality"]) [] attributes.quality ++
      [(path, .field (.scalar attributes type constraints))]
  | .nested attributes container fields =>
    let path := scope ++ [attributes.name]
    Field.listNodes (path ++ ["fields"]) fields ++
      QualityRule.nodes (path ++ ["quality"]) [] attributes.quality ++
      [(path, .field (.nested attributes container fields))]

/-- The fields of a list with all that stands below them. -/
def Field.listNodes (scope : Path) : List Field → List (Path × Node)
  | [] => []
  | f :: rest => f.nodes scope ++ Field.listNodes scope rest

end

/-- A model with all that stands below it. -/
def Model.nodes (m : Model) : List (Path × Node) :=
  let path := ["models", m.name]
  Field.listNodes (path ++ ["fields"]) m.fields ++
    QualityRule.nodes (path ++ ["quality"]) [] m.quality ++ [(path, .model m)]

/-- All parts of a contract. -/
def Contract.nodes (c : Contract) : List (Path × Node) :=
  (["info"], .info c.toIdentity) :: (c.terms.toList.map fun t => (["terms"], .terms t)) ++
    (c.servers.map fun s => (["servers", s.name], .server s)) ++
    c.models.flatMap Model.nodes ++
    QualityRule.nodes ["quality"] [] c.quality

/-- The parts of a contract by their paths. -/
abbrev Index := Entries Path Node

/-- The parts of a contract by their paths. -/
def Contract.index (c : Contract) : Index := Entries.ofList c.nodes

end ContractDrift
