import ContractDrift.Contract.Threshold
import ContractDrift.Json.Basic
import ContractDrift.Text.Blank

/-!
# Quality rules

A rule on the data of a contract, a model or a field: a metric with the interval of its accepted
values, or an expectation that is only kept and compared.

* `QualityKind` — the closed set of kinds; six of them are metrics with a name of their own.
* `QualityRule` — a rule.
-/

namespace ContractDrift

/-- What a quality rule is about. -/
inductive QualityKind where
  /-- The number of rows. -/
  | rowCount
  /-- The nulls, as a number or a share. -/
  | nullValues
  /-- The nulls and the values that stand for a missing one. -/
  | missingValues
  /-- The values that are there more than once. -/
  | duplicateValues
  /-- The values outside of the valid set or pattern. -/
  | invalidValues
  /-- The age of the newest record, in seconds. -/
  | freshness
  /-- The result of a query. -/
  | sql
  /-- An expectation in words. -/
  | text
  /-- A specification in the terms of some engine. -/
  | custom
  deriving DecidableEq, Repr, Inhabited

namespace QualityKind

/-- All kinds. -/
def all : List QualityKind :=
  [.rowCount, .nullValues, .missingValues, .duplicateValues, .invalidValues, .freshness, .sql,
    .text, .custom]

/-- The name shown, and the path segment of rules without a name. -/
def name : QualityKind → String
  | .rowCount => "row_count"
  | .nullValues => "null_values"
  | .missingValues => "missing_values"
  | .duplicateValues => "duplicate_values"
  | .invalidValues => "invalid_values"
  | .freshness => "freshness"
  | .sql => "sql"
  | .text => "text"
  | .custom => "custom"

/-- The kind with a name. -/
def ofName? (s : String) : Option QualityKind := all.find? fun k => k.name = s

/-- The kind that a metric names, with or without `_` and `-` between its words and in any letter
case. -/
def ofMetric? (metric : String) : Option QualityKind :=
  let word := (metric.toList.filter fun c => c ≠ '_' && c ≠ '-').map Text.lowerChar
  match String.ofList word with
  | "rowcount" => some .rowCount
  | "nullvalues" => some .nullValues
  | "missingvalues" => some .missingValues
  | "duplicatevalues" => some .duplicateValues
  | "invalidvalues" => some .invalidValues
  | "freshness" => some .freshness
  | _ => none

end QualityKind

/-- A quality rule. A name, if there is one, addresses the rule within its scope. -/
structure QualityRule where
  name : Option String := none
  kind : QualityKind
  threshold : Threshold := {}
  description : Option String := none
  /-- What the kind needs besides: a query, an engine, a unit. -/
  parameters : Parameters := .empty
  deriving Inhabited

namespace QualityRule

/-- The rule with one more parameter. -/
def withParameter (rule : QualityRule) (name : String) (value : Json) : QualityRule :=
  { rule with parameters := rule.parameters.insert name value }

end QualityRule

end ContractDrift
