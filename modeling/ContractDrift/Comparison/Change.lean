import ContractDrift.Comparison.Index

/-!
# Changes

A part of a contract is there in one version only, or it is there in both and some groups of its
attributes differ. What stands below a part has its own path and never counts as a difference of
the part itself.

* `Change` — one change; a removed part has no new side and an added one no old side.
* `Attribute` — the groups of attributes.
* `Node.differences` — the groups in which two parts differ.
* `Comparison.between` — all changes from one index to another, in the order of paths.
* `Contract.compare` — the same for contracts.
-/

namespace ContractDrift

/-- The groups of attributes, in the order of reports. -/
inductive Attribute where
  | type
  | nullability
  | uniqueness
  | primaryKey
  | constraints
  | references
  | default
  | threshold
  | parameters
  | description
  | metadata
  deriving DecidableEq, Repr, Inhabited

namespace Attribute

/-- The name shown. -/
def name : Attribute → String
  | .type => "type"
  | .nullability => "nullability"
  | .uniqueness => "uniqueness"
  | .primaryKey => "primary-key"
  | .constraints => "constraints"
  | .references => "references"
  | .default => "default"
  | .threshold => "threshold"
  | .parameters => "parameters"
  | .description => "description"
  | .metadata => "metadata"

/-- The place in the order of reports. -/
def rank : Attribute → Nat
  | .type => 0
  | .nullability => 1
  | .uniqueness => 2
  | .primaryKey => 3
  | .constraints => 4
  | .references => 5
  | .default => 6
  | .threshold => 7
  | .parameters => 8
  | .description => 9
  | .metadata => 10

/-- The group itself, if it differs. -/
def when (a : Attribute) (differs : Bool) : List Attribute := if differs then [a] else []

end Attribute

/-- The sorts of changes. -/
inductive ChangeKind where
  | added
  | removed
  | modified
  deriving DecidableEq, Repr, Inhabited

namespace ChangeKind

/-- The name shown. -/
def name : ChangeKind → String
  | .added => "added"
  | .removed => "removed"
  | .modified => "modified"

/-- The sort seen in the opposite direction. -/
def reverse : ChangeKind → ChangeKind
  | .added => .removed
  | .removed => .added
  | .modified => .modified

end ChangeKind

/-- One change between two versions of a contract. -/
inductive Change where
  | added (path : Path) (node : Node)
  | removed (path : Path) (node : Node)
  | modified (path : Path) (group : Attribute) (old new : Node)
  deriving Inhabited

namespace Change

/-- Where the change is. -/
def path : Change → Path
  | .added path _ => path
  | .removed path _ => path
  | .modified path _ _ _ => path

/-- The sort of the change. -/
def kind : Change → ChangeKind
  | .added .. => .added
  | .removed .. => .removed
  | .modified .. => .modified

/-- The part before the change. -/
def old? : Change → Option Node
  | .added .. => none
  | .removed _ node => some node
  | .modified _ _ old _ => some old

/-- The part after the change. -/
def new? : Change → Option Node
  | .added _ node => some node
  | .removed .. => none
  | .modified _ _ _ new => some new

/-- The part that the change is named after: the old one if there is one. -/
def node : Change → Node
  | .added _ node => node
  | .removed _ node => node
  | .modified _ _ old _ => old

/-- The sort of part that changed. -/
def entity (c : Change) : EntityKind := c.node.entity

/-- The group of attributes that differs. -/
def group? : Change → Option Attribute
  | .modified _ group _ _ => some group
  | _ => none

/-- The change seen in the opposite direction. -/
def reverse : Change → Change
  | .added path node => .removed path node
  | .removed path node => .added path node
  | .modified path group old new => .modified path group new old

end Change

/-! ## Differences of two parts -/

/-- Whether two lists have the same members. -/
def sameMembers (a b : List String) : Bool := Members.ofList a == Members.ofList b

/-- The groups in which two servers differ. -/
def Server.differences (old new : Server) : List Attribute :=
  Attribute.type.when (old.type != new.type) ++
    Attribute.parameters.when (!old.parameters.same new.parameters) ++
    Attribute.description.when (old.description != new.description)

/-- The groups in which two models differ, their fields and rules apart. -/
def Model.differences (old new : Model) : List Attribute :=
  Attribute.type.when (old.type != new.type) ++
    Attribute.primaryKey.when (old.primaryKey != new.primaryKey) ++
    Attribute.description.when
      (old.title != new.title || old.description != new.description) ++
    Attribute.metadata.when (!sameMembers old.tags new.tags)

/-- The groups in which two quality rules differ. -/
def QualityRule.differences (old new : QualityRule) : List Attribute :=
  Attribute.type.when (old.kind != new.kind) ++
    Attribute.threshold.when (!old.threshold.same new.threshold) ++
    Attribute.parameters.when (!old.parameters.same new.parameters) ++
    Attribute.description.when (old.description != new.description)

/-- Whether two fields have the same metadata. -/
def FieldMetadata.same (old new : FieldMetadata) : Bool :=
  sameMembers old.tags new.tags && old.pii == new.pii &&
    old.classification == new.classification && Json.sameOptional old.example? new.example?

/-- The groups in which two fields differ, whatever their shapes. -/
def FieldAttributes.differences (old new : FieldAttributes) : List Attribute :=
  Attribute.nullability.when (old.required != new.required) ++
    Attribute.uniqueness.when (old.unique != new.unique) ++
    Attribute.primaryKey.when (old.primary != new.primary) ++
    Attribute.references.when (old.references != new.references) ++
    Attribute.default.when (!Json.sameOptional old.default? new.default?) ++
    Attribute.description.when
      (old.title != new.title || old.description != new.description) ++
    Attribute.metadata.when (!old.metadata.same new.metadata)

/-- The groups in which the shapes of two fields differ. A change between scalar and nested is a
change of type and nothing else. -/
def Field.shapeDifferences : Field → Field → List Attribute
  | .scalar _ oldType oldConstraints, .scalar _ newType newConstraints =>
    Attribute.type.when (oldType != newType) ++
      Attribute.constraints.when (!oldConstraints.same newConstraints)
  | .nested _ oldContainer _, .nested _ newContainer _ =>
    Attribute.type.when (oldContainer != newContainer)
  | _, _ => [.type]

/-- The groups in which two fields differ, the fields and rules inside of them apart. -/
def Field.differences (old new : Field) : List Attribute :=
  old.shapeDifferences new ++ old.attributes.differences new.attributes

/-- The groups in which the identities of two contracts differ. -/
def Identity.differences (old new : Identity) : List Attribute :=
  Attribute.description.when
    (old.info.title != new.info.title || old.info.description != new.info.description) ++
  Attribute.metadata.when
    (old.id != new.id || old.specification != new.specification ||
      old.info.version != new.info.version || old.info.owner != new.info.owner ||
      old.info.contact != new.info.contact)

/-- The groups in which two parts with the same path differ. Parts of different sorts differ in
their type. -/
def Node.differences : Node → Node → List Attribute
  | .info old, .info new => old.differences new
  | .terms old, .terms new => Attribute.metadata.when (old != new)
  | .server old, .server new => old.differences new
  | .model old, .model new => old.differences new
  | .field old, .field new => old.differences new
  | .quality old, .quality new => old.differences new
  | _, _ => [.type]

/-! ## Comparing contracts -/

/-- The outcome of a comparison. -/
structure Comparison where
  /-- The changes, in the order of their paths and of the groups of attributes. -/
  changes : List Change := []
  /-- The paths of the parts that are there in both versions without a difference. -/
  unchanged : List Path := []
  deriving Inhabited

namespace Comparison

/-- Whether nothing changed. -/
def isEmpty (c : Comparison) : Bool := c.changes.isEmpty

/-- The changes at one path, given the parts there before and after. -/
def changesAt (path : Path) : Option Node → Option Node → List Change
  | some old, none => [.removed path old]
  | none, some new => [.added path new]
  | some old, some new => (old.differences new).map fun a => .modified path a old new
  | none, none => []

/-- Whether a part is there before and after without a difference. -/
def isUnchanged : Option Node → Option Node → Bool
  | some old, some new => (old.differences new).isEmpty
  | _, _ => false

/-- The comparison of two indexes. -/
def between (old new : Index) : Comparison :=
  let paths := (old.keys.union new.keys).toList
  { changes := paths.flatMap fun p => changesAt p (old.get? p) (new.get? p)
    unchanged := paths.filter fun p => isUnchanged (old.get? p) (new.get? p) }

end Comparison

/-- The changes from one version of a contract to another. -/
def Contract.compare (old new : Contract) : Comparison := .between old.index new.index

/-- The changes at a path all have that path. -/
theorem Comparison.path_of_mem_changesAt {path : Path} {old new : Option Node} {c : Change}
    (h : c ∈ changesAt path old new) : c.path = path := by
  match old, new with
  | some _, none => simp [changesAt] at h; subst h; rfl
  | none, some _ => simp [changesAt] at h; subst h; rfl
  | none, none => simp [changesAt] at h
  | some _, some _ =>
    simp only [changesAt, List.mem_map] at h
    obtain ⟨_, _, rfl⟩ := h
    rfl

end ContractDrift
