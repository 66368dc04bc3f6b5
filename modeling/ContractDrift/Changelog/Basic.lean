import ContractDrift.Changelog.Rule
import ContractDrift.Changelog.Settings
import ContractDrift.Comparison.Value
import ContractDrift.Json.Printer

/-!
# Changelogs

The graded changes between two versions of a contract. The change of a model or field that came or
went as a whole stands for the like changes of all parts below it. What is left is ordered so that
the paths with the most severe changes come first.

* `GradedChange` — a change with its rule and severity; `Change.grade` finds them.
* `Changelog.ofGraded` — without what a container stands for, in order.
* `Changelog.groups` — the changes of one path together.
* `Changelog.passes`, `Changelog.filter`, `Changelog.summary`.
* `Contract.changelog` — the changelog of two versions.
-/

namespace ContractDrift

/-- A change, the rule that decided about it and the severity that it has. -/
structure GradedChange where
  change : Change
  severity : Severity
  rule : Rule

/-- The grade of a change under some settings. -/
def Change.grade (settings : ChangelogSettings) (c : Change) : GradedChange :=
  let rule := (Rule.forChange? c).getD .unclassified
  { change := c, severity := (settings.override? rule.id).getD rule.severity, rule }

namespace GradedChange

/-- A side of a change of type, as a sentence shows it. -/
def typeLabel : Json → String
  | .text label => label
  | .null => "none"
  | value => value.compact

/-- What a report says about the change. -/
def description (g : GradedChange) : String :=
  if g.change.group? = some .type then
    g.rule.summary ++ " from " ++ typeLabel g.change.oldValue ++ " to " ++
      typeLabel g.change.newValue
  else g.rule.summary

/-- The change as a record, in the order in which reports show it. -/
def toJson (g : GradedChange) : Json :=
  .object (g.change.headSlots ++
    [ ("severity", .text g.severity.name),
      ("rule", .text g.rule.id),
      ("description", .text g.description)] ++
    g.change.valueSlots)

/-- Whether the change is a container that came or went as a whole. -/
def isWholeContainer (g : GradedChange) : Bool :=
  g.change.kind != .modified && g.change.node.isContainer

end GradedChange

/-- The number of changes of each severity. -/
structure Summary where
  breaking : Nat := 0
  warning : Nat := 0
  info : Nat := 0
  deriving DecidableEq, Repr, Inhabited

namespace Summary

/-- The number of all changes. -/
def total (s : Summary) : Nat := s.breaking + s.warning + s.info

/-- The counts as a record. -/
def toJson (s : Summary) : Json :=
  .object [
    ("breaking", .ofNat s.breaking),
    ("warning", .ofNat s.warning),
    ("info", .ofNat s.info),
    ("total", .ofNat s.total)]

end Summary

/-- The changes of one path; there is at least one. -/
structure ChangeGroup where
  first : GradedChange
  rest : List GradedChange

namespace ChangeGroup

/-- All changes of the group. -/
def changes (g : ChangeGroup) : List GradedChange := g.first :: g.rest

/-- The path of the group. -/
def path (g : ChangeGroup) : Path := g.first.change.path

/-- The sort of part at the path. -/
def entity (g : ChangeGroup) : EntityKind := g.first.change.entity

/-- The severity of the group: that of its first change. -/
def severity (g : ChangeGroup) : Severity := g.first.severity

end ChangeGroup

/-- The graded changes between two versions, in the order of reports. -/
structure Changelog where
  changes : List GradedChange := []
  deriving Inhabited

namespace Changelog

/-! ## Containers -/

/-- Whether a change is covered by the like change of a container above it. -/
def isCovered (all : List GradedChange) (g : GradedChange) : Bool :=
  all.any fun h => h.isWholeContainer && h.change.kind == g.change.kind &&
    h.change.path.isAbove g.change.path

/-- The changes without those that a container stands for. -/
def uncovered (all : List GradedChange) : List GradedChange :=
  all.filter fun g => !isCovered all g

/-! ## Order -/

/-- The greatest severity at a path. -/
def pathSeverity (all : List GradedChange) (p : Path) : Severity :=
  (all.filter fun g => g.change.path == p).foldl (fun s g => s.max g.severity) .info

/-- The order of reports: paths with greater severity first, then by sort of part and by path; at
one path greater severity first, then by group of attributes. -/
def order (all : List GradedChange) (a b : GradedChange) : Ordering :=
  (Ord.compare (pathSeverity all b.change.path).rank (pathSeverity all a.change.path).rank).then
    ((Ord.compare a.change.entity.rank b.change.entity.rank).then
      ((a.change.path.compare b.change.path).then
        ((Ord.compare b.severity.rank a.severity.rank).then
          (Ord.compare (a.change.group?.map Attribute.rank) (b.change.group?.map Attribute.rank)))))

/-- The changes in the order of reports. -/
def sorted (all : List GradedChange) : List GradedChange :=
  all.mergeSort fun a b => order all a b != .gt

/-- The changelog of graded changes. -/
def ofGraded (all : List GradedChange) : Changelog := { changes := sorted (uncovered all) }

/-! ## Views -/

/-- The changes with neighbours of the same path together. -/
def groupChanges : List GradedChange → List ChangeGroup
  | [] => []
  | g :: rest =>
    match groupChanges rest with
    | [] => [⟨g, []⟩]
    | h :: groups =>
      if g.change.path = h.path then ⟨g, h.changes⟩ :: groups else ⟨g, []⟩ :: h :: groups

/-- The changes by path, in the order of the changelog. -/
def groups (c : Changelog) : List ChangeGroup := groupChanges c.changes

/-- The changes of at least a severity. -/
def filter (c : Changelog) (least : Severity) : Changelog :=
  { changes := c.changes.filter fun g => least ≤ g.severity }

/-- The gate: whether no change has at least the severity. -/
def passes (c : Changelog) (failOn : Severity) : Bool :=
  !c.changes.any fun g => failOn ≤ g.severity

/-- Whether there is a breaking change. -/
def hasBreaking (c : Changelog) : Bool := c.changes.any fun g => g.severity == .breaking

/-- Whether there is no change. -/
def isEmpty (c : Changelog) : Bool := c.changes.isEmpty

/-- The number of changes of a severity. -/
def count (c : Changelog) (severity : Severity) : Nat :=
  c.changes.countP fun g => g.severity == severity

/-- The number of changes of each severity. -/
def summary (c : Changelog) : Summary :=
  { breaking := c.count .breaking, warning := c.count .warning, info := c.count .info }

/-- The changelog as a record. -/
def toJson (c : Changelog) : Json :=
  .object [
    ("summary", c.summary.toJson),
    ("changes", .list (c.changes.map GradedChange.toJson))]

end Changelog

/-- The changelog from one version of a contract to another. -/
def Contract.changelog (old new : Contract) (settings : ChangelogSettings) : Changelog :=
  .ofGraded ((old.compare new).changes.map (Change.grade settings))

end ContractDrift
