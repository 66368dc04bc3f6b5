import ContractDrift.Contract.DataType
import ContractDrift.Contract.Path
import ContractDrift.Decimal.Layout
import ContractDrift.Json.Record

/-!
# Findings about a contract

What can be wrong with a contract that could be loaded, where it is, and how it is reported.

* `Problem` — what is wrong, with its level and its message.
* `Finding` — a problem at a path.
* `LintReport` — all findings, as a record and as text.
-/

namespace ContractDrift

/-- How bad a problem is. -/
inductive ProblemLevel where
  | warning
  | error
  deriving DecidableEq, Repr, Inhabited

/-- The name shown. -/
def ProblemLevel.name : ProblemLevel → String
  | .warning => "warning"
  | .error => "error"

/-- What can be wrong with a contract. -/
inductive Problem where
  /-- A model without fields. -/
  | noFields
  /-- A column of the key that the model does not have. -/
  | missingKeyColumn (column : String)
  /-- A reference that is not written as one. -/
  | malformedReference (reference : String)
  /-- A reference to a field that the contract does not have. -/
  | unresolvedReference (reference : String)
  /-- A pattern that is no regular expression. -/
  | invalidPattern
  /-- A least length above the greatest one. -/
  | emptyLengthRange (least greatest : Nat)
  /-- A least value above the greatest one. -/
  | emptyValueRange (least greatest : Binary64)
  /-- An enumeration without members. -/
  | emptyEnumeration
  /-- A length of values that have none. -/
  | lengthOfNonText (type : DataType)
  /-- An interval without values. -/
  | emptyThreshold
  deriving DecidableEq

namespace Problem

/-- How bad a problem is. -/
def level : Problem → ProblemLevel
  | .noFields => .warning
  | .missingKeyColumn _ => .error
  | .malformedReference _ => .error
  | .unresolvedReference _ => .warning
  | .invalidPattern => .error
  | .emptyLengthRange .. => .error
  | .emptyValueRange .. => .error
  | .emptyEnumeration => .warning
  | .lengthOfNonText _ => .warning
  | .emptyThreshold => .error

/-- The message about a problem. -/
def message : Problem → String
  | .noFields => "model has no fields"
  | .missingKeyColumn column =>
    "primary key column '" ++ column ++ "' is not a field of the model"
  | .malformedReference reference =>
    "reference '" ++ reference ++ "' is not of the form model.field"
  | .unresolvedReference reference =>
    "reference '" ++ reference ++ "' does not resolve within this contract"
  | .invalidPattern => "pattern does not compile"
  | .emptyLengthRange least greatest =>
    "minLength " ++ Text.digits least ++ " exceeds maxLength " ++ Text.digits greatest
  | .emptyValueRange least greatest =>
    "minimum " ++ NumberLayout.plain.render least ++ " exceeds maximum " ++
      NumberLayout.plain.render greatest
  | .emptyEnumeration => "enum allows no values"
  | .lengthOfNonText type => "length constraint on non-text type " ++ type.text
  | .emptyThreshold => "threshold admits no value"

end Problem

/-- A problem of the part of a contract at a path. -/
structure Finding where
  path : Path
  problem : Problem
  deriving DecidableEq

namespace Finding

/-- How bad the problem is. -/
def level (f : Finding) : ProblemLevel := f.problem.level

/-- The finding as a record. -/
def toJson (f : Finding) : Json :=
  .object [
    ("level", .text f.level.name), ("path", .text f.path.text), ("message", .text f.problem.message)]

/-- The line about a finding. -/
def line (f : Finding) : String :=
  "  " ++ f.level.name ++ ": " ++ f.path.text ++ ": " ++ f.problem.message ++ "\n"

end Finding

/-- The findings about a contract, in the order of the contract. -/
structure LintReport where
  findings : List Finding

namespace LintReport

/-- The number of findings of a level. -/
def count (r : LintReport) (level : ProblemLevel) : Nat :=
  r.findings.countP fun f => f.level = level

/-- Whether some finding is an error. -/
def hasErrors (r : LintReport) : Bool := r.findings.any fun f => f.level = .error

/-- Whether there are no findings. -/
def isClean (r : LintReport) : Bool := r.findings.isEmpty

/-- The report as a record. -/
def toJson (r : LintReport) : Json :=
  .object [("findings", .list (r.findings.map Finding.toJson))]

/-- The report about the contract at a location as text. -/
def report (r : LintReport) (location : String) : String :=
  if r.isClean then "✅ " ++ location ++ ": no problems found\n"
  else
    String.join (r.findings.map Finding.line) ++ "\n" ++ location ++ ": " ++
      Text.digits (r.count .error) ++ " error(s), " ++ Text.digits (r.count .warning) ++
      " warning(s)\n"

end LintReport

end ContractDrift
