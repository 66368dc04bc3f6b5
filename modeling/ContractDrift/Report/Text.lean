import ContractDrift.Changelog.Basic

/-!
# Reports in text

Comparisons and changelogs as lines for a reader. A changelog is first laid out as a list of
pieces, headings, paths and records, and each piece is then written on its own, so what a report
contains can be said without looking into its text.

* `Comparison.report` — one line for each change.
* `ReportPiece`, `Changelog.pieces` — the layout of a changelog by severity and path.
* `Changelog.report` — its text.
* `Gate` — a changelog with the verdict about it.
-/

namespace ContractDrift

/-- The mark in front of a change. -/
def ChangeKind.mark : ChangeKind → String
  | .added => "+"
  | .removed => "-"
  | .modified => "~"

/-- The heading over the paths of a severity. -/
def Severity.heading : Severity → String
  | .breaking => "Breaking changes"
  | .warning => "Warnings"
  | .info => "Informational changes"

/-! ## Comparisons -/

/-- The line of a change. -/
def Change.line (c : Change) : String :=
  let group := match c.group? with
    | some group => " [" ++ group.name ++ "]"
    | none => ""
  c.kind.mark ++ " " ++ c.path.text ++ " (" ++ c.entity.name ++ ")" ++ group ++ "\n"

/-- A comparison as text. -/
def Comparison.report (c : Comparison) : String :=
  if c.isEmpty then "No differences\n"
  else
    String.join (c.changes.map Change.line) ++
      "\n" ++ Text.digits c.changes.length ++ " difference(s)\n"

/-! ## Changelogs -/

/-- A piece of the report of a changelog. -/
inductive ReportPiece where
  /-- A severity and how many paths stand under it. -/
  | heading (severity : Severity) (paths : Nat)
  | part (path : Path) (entity : EntityKind)
  | record (change : GradedChange)
  | summary (summary : Summary)

namespace ReportPiece

/-- The text of a piece. -/
def text : ReportPiece → String
  | .heading severity paths => "\n" ++ severity.heading ++ " (" ++ Text.digits paths ++ "):\n"
  | .part path entity => "  " ++ path.text ++ " (" ++ entity.name ++ ")\n"
  | .record g =>
    "    " ++ g.change.kind.mark ++ " " ++ g.description ++ " [" ++ g.rule.id ++ "]\n"
  | .summary s =>
    "\nSummary: " ++ Text.digits s.breaking ++ " breaking, " ++ Text.digits s.warning ++
      " warning, " ++ Text.digits s.info ++ " info (" ++ Text.digits s.total ++ " total)\n"

end ReportPiece

/-- The path of a group and its records. -/
def ChangeGroup.pieces (g : ChangeGroup) : List ReportPiece :=
  .part g.path g.entity :: g.changes.map .record

/-- The groups under their headings; a heading stands where the severity is not `current`. -/
def ChangeGroup.headedPieces (paths : Severity → Nat) :
    (current : Option Severity) → List ChangeGroup → List ReportPiece
  | _, [] => []
  | current, g :: rest =>
    (if current = some g.severity then [] else [.heading g.severity (paths g.severity)]) ++
      g.pieces ++ ChangeGroup.headedPieces paths (some g.severity) rest

namespace Changelog

/-- The number of paths of a severity. -/
def pathCount (c : Changelog) (severity : Severity) : Nat :=
  c.groups.countP fun g => g.severity == severity

/-- The pieces of the report of a changelog that is not empty. -/
def pieces (c : Changelog) : List ReportPiece :=
  ChangeGroup.headedPieces c.pathCount none c.groups ++ [.summary c.summary]

/-- A changelog as text. -/
def report (c : Changelog) : String :=
  if c.isEmpty then "No changes\n" else String.join (c.pieces.map ReportPiece.text)

end Changelog

/-! ## Gates -/

/-- A verdict about two versions and the changes to show with it. -/
structure Gate where
  passed : Bool
  failOn : Severity
  shown : Changelog

namespace Gate

/-- The gate of a changelog: the verdict is about all changes, and those of severity warning and
above are shown. -/
def ofChangelog (settings : ChangelogSettings) (c : Changelog) : Gate :=
  { passed := c.passes settings.failOn, failOn := settings.failOn, shown := c.filter .warning }

/-- The gate as a record. -/
def toJson (g : Gate) : Json :=
  .object [
    ("passed", .bool g.passed),
    ("failOn", .text g.failOn.name),
    ("summary", g.shown.summary.toJson),
    ("changes", .list (g.shown.changes.map GradedChange.toJson))]

/-- The gate as text. -/
def report (g : Gate) : String :=
  g.shown.report ++
    if g.passed then "\n✅ No changes at or above '" ++ g.failOn.name ++ "'\n"
    else "\n❌ Changes at or above '" ++ g.failOn.name ++ "' found\n"

end Gate

end ContractDrift
