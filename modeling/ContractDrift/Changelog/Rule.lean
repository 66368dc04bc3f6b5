import ContractDrift.Changelog.Severity
import ContractDrift.Comparison.Change

/-!
# Classification rules

A fixed table grades changes. A rule is about one sort of part and one sort of change, often about
one group of attributes, and may have a condition on the two sides. Of the rules that match, the
most specific one decides, and among equally specific ones the most severe.

* `Condition`, `Condition.holds` — the conditions that rules refer to.
* `Rule.table` — the rules.
* `Rule.forChange?` — the rule that decides about a change.
-/

namespace ContractDrift

/-- A condition on the two sides of a change. -/
inductive Condition where
  | modelHadNoKey
  | modelHasNoKey
  | fieldOptional
  | fieldMandatory
  | typeWidened
  | nowRequired
  | nowNullable
  | nowUnique
  | noLongerUnique
  | nowPrimary
  | noLongerPrimary
  | constraintsTightened
  | constraintsRelaxed
  | hadNoReference
  | hasNoReference
  | thresholdTightened
  | thresholdRelaxed
  deriving DecidableEq, Repr

namespace Change

/-- The model before the change. -/
def oldModel? (c : Change) : Option Model :=
  match c.old? with
  | some (.model m) => some m
  | _ => none

/-- The model after the change. -/
def newModel? (c : Change) : Option Model :=
  match c.new? with
  | some (.model m) => some m
  | _ => none

/-- The field before the change. -/
def oldField? (c : Change) : Option Field :=
  match c.old? with
  | some (.field f) => some f
  | _ => none

/-- The field after the change. -/
def newField? (c : Change) : Option Field :=
  match c.new? with
  | some (.field f) => some f
  | _ => none

/-- The quality rule before the change. -/
def oldRule? (c : Change) : Option QualityRule :=
  match c.old? with
  | some (.quality r) => some r
  | _ => none

/-- The quality rule after the change. -/
def newRule? (c : Change) : Option QualityRule :=
  match c.new? with
  | some (.quality r) => some r
  | _ => none

/-- How the new constraints of a scalar field lie to the old ones. -/
def constraintsRelation? (c : Change) : Option Relation := do
  let old ← (← c.oldField?).constraints?
  let new ← (← c.newField?).constraints?
  some (old.relation new)

/-- How the new threshold of a rule lies to the old one. -/
def thresholdRelation? (c : Change) : Option Relation := do
  let old ← c.oldRule?
  let new ← c.newRule?
  some (old.threshold.relation new.threshold)

end Change

/-- Whether the model declares no key columns. -/
def Model.hasNoKey (m : Model) : Bool := m.primaryKey.all List.isEmpty

/-- Whether records without a value for the field stay valid. -/
def Field.isOmissible (f : Field) : Bool := f.isNullable || f.attributes.default?.isSome

/-- Whether a condition holds of a change. -/
def Condition.holds (c : Change) : Condition → Bool
  | .modelHadNoKey => c.oldModel?.any Model.hasNoKey
  | .modelHasNoKey => c.newModel?.any Model.hasNoKey
  | .fieldOptional => c.newField?.any Field.isOmissible
  | .fieldMandatory => !c.newField?.any Field.isOmissible
  | .typeWidened =>
    match c.oldField?, c.newField? with
    | some (.scalar _ old _), some (.scalar _ new _) => old.compatibility new == .widened
    | _, _ => false
  | .nowRequired => c.newField?.any fun f => f.attributes.required
  | .nowNullable => c.newField?.any fun f => !f.attributes.required
  | .nowUnique => c.newField?.any fun f => f.attributes.unique
  | .noLongerUnique => c.newField?.any fun f => !f.attributes.unique
  | .nowPrimary => c.newField?.any fun f => f.attributes.primary
  | .noLongerPrimary => c.newField?.any fun f => !f.attributes.primary
  | .constraintsTightened => c.constraintsRelation? == some .narrower
  | .constraintsRelaxed => c.constraintsRelation? == some .wider
  | .hadNoReference => c.oldField?.any fun f => f.attributes.references.isNone
  | .hasNoReference => c.newField?.any fun f => f.attributes.references.isNone
  | .thresholdTightened => c.thresholdRelation? == some .narrower
  | .thresholdRelaxed => c.thresholdRelation? == some .wider

/-- A row of the classification table. -/
structure Rule where
  id : String
  entity : EntityKind
  change : ChangeKind
  group : Option Attribute := none
  condition : Option Condition := none
  severity : Severity
  /-- What a report says about the change. -/
  summary : String
  deriving DecidableEq, Repr

namespace Rule

/-- Rules about models. -/
def models : List Rule := [
  ⟨"model-removed", .model, .removed, none, none, .breaking, "Model removed"⟩,
  ⟨"model-added", .model, .added, none, none, .info, "Model added"⟩,
  ⟨"model-type-changed", .model, .modified, some .type, none, .breaking, "Model type changed"⟩,
  ⟨"model-primary-key-added", .model, .modified, some .primaryKey, some .modelHadNoKey, .warning,
    "Model primary key declared"⟩,
  ⟨"model-primary-key-removed", .model, .modified, some .primaryKey, some .modelHasNoKey,
    .breaking, "Model primary key removed"⟩,
  ⟨"model-primary-key-changed", .model, .modified, some .primaryKey, none, .breaking,
    "Model primary key changed"⟩,
  ⟨"model-description-changed", .model, .modified, some .description, none, .info,
    "Model description changed"⟩,
  ⟨"model-metadata-changed", .model, .modified, some .metadata, none, .info,
    "Model metadata changed"⟩]

/-- Rules about fields. -/
def fields : List Rule := [
  ⟨"field-removed", .field, .removed, none, none, .breaking, "Field removed"⟩,
  ⟨"field-added-optional", .field, .added, none, some .fieldOptional, .warning,
    "Optional field added"⟩,
  ⟨"field-added-required", .field, .added, none, some .fieldMandatory, .breaking,
    "Required field added"⟩,
  ⟨"field-type-widened", .field, .modified, some .type, some .typeWidened, .warning,
    "Field type widened"⟩,
  ⟨"field-type-changed", .field, .modified, some .type, none, .breaking, "Field type changed"⟩,
  ⟨"field-required-added", .field, .modified, some .nullability, some .nowRequired, .breaking,
    "Field became required"⟩,
  ⟨"field-required-removed", .field, .modified, some .nullability, some .nowNullable, .warning,
    "Field became nullable"⟩,
  ⟨"field-unique-added", .field, .modified, some .uniqueness, some .nowUnique, .warning,
    "Field uniqueness added"⟩,
  ⟨"field-unique-removed", .field, .modified, some .uniqueness, some .noLongerUnique, .breaking,
    "Field uniqueness removed"⟩,
  ⟨"field-primary-key-added", .field, .modified, some .primaryKey, some .nowPrimary, .warning,
    "Field became part of the primary key"⟩,
  ⟨"field-primary-key-removed", .field, .modified, some .primaryKey, some .noLongerPrimary,
    .breaking, "Field removed from the primary key"⟩,
  ⟨"field-constraints-tightened", .field, .modified, some .constraints,
    some .constraintsTightened, .warning, "Field constraints tightened"⟩,
  ⟨"field-constraints-relaxed", .field, .modified, some .constraints, some .constraintsRelaxed,
    .warning, "Field constraints relaxed"⟩,
  ⟨"field-constraints-changed", .field, .modified, some .constraints, none, .breaking,
    "Field constraints changed"⟩,
  ⟨"field-references-added", .field, .modified, some .references, some .hadNoReference, .warning,
    "Field reference added"⟩,
  ⟨"field-references-removed", .field, .modified, some .references, some .hasNoReference,
    .warning, "Field reference removed"⟩,
  ⟨"field-references-changed", .field, .modified, some .references, none, .breaking,
    "Field reference changed"⟩,
  ⟨"field-default-changed", .field, .modified, some .default, none, .info,
    "Field default changed"⟩,
  ⟨"field-description-changed", .field, .modified, some .description, none, .info,
    "Field description changed"⟩,
  ⟨"field-metadata-changed", .field, .modified, some .metadata, none, .info,
    "Field metadata changed"⟩]

/-- Rules about quality rules. -/
def qualityRules : List Rule := [
  ⟨"quality-added", .qualityRule, .added, none, none, .warning, "Quality rule added"⟩,
  ⟨"quality-removed", .qualityRule, .removed, none, none, .warning, "Quality rule removed"⟩,
  ⟨"quality-threshold-tightened", .qualityRule, .modified, some .threshold,
    some .thresholdTightened, .warning, "Quality threshold tightened"⟩,
  ⟨"quality-threshold-relaxed", .qualityRule, .modified, some .threshold, some .thresholdRelaxed,
    .info, "Quality threshold relaxed"⟩,
  ⟨"quality-threshold-changed", .qualityRule, .modified, some .threshold, none, .warning,
    "Quality threshold changed"⟩,
  ⟨"quality-type-changed", .qualityRule, .modified, some .type, none, .warning,
    "Quality rule kind changed"⟩,
  ⟨"quality-parameters-changed", .qualityRule, .modified, some .parameters, none, .warning,
    "Quality rule parameters changed"⟩,
  ⟨"quality-description-changed", .qualityRule, .modified, some .description, none, .info,
    "Quality rule description changed"⟩]

/-- Rules about servers. -/
def servers : List Rule := [
  ⟨"server-added", .server, .added, none, none, .warning, "Server added"⟩,
  ⟨"server-removed", .server, .removed, none, none, .warning, "Server removed"⟩,
  ⟨"server-changed", .server, .modified, some .type, none, .warning, "Server type changed"⟩,
  ⟨"server-changed", .server, .modified, some .parameters, none, .warning,
    "Server configuration changed"⟩,
  ⟨"server-description-changed", .server, .modified, some .description, none, .info,
    "Server description changed"⟩]

/-- Rules about the identity of a contract and its terms. -/
def metadata : List Rule := [
  ⟨"metadata-added", .metadata, .added, none, none, .info, "Metadata added"⟩,
  ⟨"metadata-removed", .metadata, .removed, none, none, .info, "Metadata removed"⟩,
  ⟨"metadata-changed", .metadata, .modified, none, none, .info, "Metadata changed"⟩]

/-- The classification table. -/
def table : List Rule := models ++ fields ++ qualityRules ++ servers ++ metadata

/-- The rule for a change that no row of the table is about. -/
def unclassified : Rule :=
  ⟨"unclassified", .metadata, .modified, none, none, .warning, "Unclassified change"⟩

/-- Whether the rule is about a change. -/
def applies (r : Rule) (c : Change) : Bool :=
  r.entity == c.entity && r.change == c.kind &&
    (r.group.isNone || r.group == c.group?) && r.condition.all (Condition.holds c)

/-- How specific a rule is: a group counts more than a condition. -/
def specificity (r : Rule) : Nat :=
  (if r.group.isSome then 2 else 0) + (if r.condition.isSome then 1 else 0)

/-- Whether `s` is at least as specific as `r`, and if equally specific at least as severe. -/
def yieldsTo (r s : Rule) : Bool :=
  r.specificity < s.specificity || (r.specificity == s.specificity && r.severity ≤ s.severity)

/-- The decisive one of a list of rules; of equals the last. -/
def decisive? : List Rule → Option Rule
  | [] => none
  | r :: rest => some (rest.foldl (fun best s => if best.yieldsTo s then s else best) r)

/-- The rule that decides about a change. -/
def forChange? (c : Change) : Option Rule := decisive? (table.filter fun r => r.applies c)

end Rule

end ContractDrift
