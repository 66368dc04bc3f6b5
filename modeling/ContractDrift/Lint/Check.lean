import ContractDrift.Contract.Basic
import ContractDrift.Lint.Finding
import ContractDrift.Pattern.Reader

/-!
# Checking contracts

What loading cannot rule out is checked afterwards, part by part: references between fields,
patterns, the ends of ranges, and keys.

* `Contract.target?` — the field that the names of a reference lead to.
* `Field.problems`, `Model.problems` — what is wrong with one part by itself.
* `Contract.lint` — the findings about all parts.
-/

namespace ContractDrift

/-! ## References -/

/-- Whether a word may be a name in a reference: it begins with a letter or an underscore and has
only these, digits and hyphens. -/
def isReferenceName : List Char → Bool
  | [] => false
  | c :: rest => (c.isAlpha || c = '_') && rest.all fun d => d.isAlphanum || d = '_' || d = '-'

/-- The names in a reference, a model and at least one field, if it is written as one. -/
def referenceNames? (reference : String) : Option (List String) :=
  let words := Text.fields '.' reference.toList
  if 2 ≤ words.length && words.all isReferenceName then some (words.map String.ofList) else none

/-- The field that names lead to from a list of fields, each the first of its name. -/
def Field.target? (fields : List Field) : List String → Option Field
  | [] => none
  | [name] => Field.find? name fields
  | name :: rest => (Field.find? name fields).bind fun f => Field.target? f.children rest

/-- The field that the name of a model and those of fields lead to. -/
def Contract.target? (c : Contract) : List String → Option Field
  | [] => none
  | name :: rest => (c.model? name).bind fun m => Field.target? m.fields rest

/-- What is wrong with a reference. -/
def Contract.referenceProblems (c : Contract) (reference : String) : List Problem :=
  match referenceNames? reference with
  | none => [.malformedReference reference]
  | some names =>
    match c.target? names with
    | some _ => []
    | none => [.unresolvedReference reference]

/-! ## Constraints -/

namespace Constraints

/-- What is wrong with the pattern. -/
def patternProblems (c : Constraints) : List Problem :=
  match c.pattern with
  | some pattern => if Pattern.isValid pattern then [] else [.invalidPattern]
  | none => []

/-- What is wrong with the lengths by themselves. -/
def lengthProblems (c : Constraints) : List Problem :=
  match c.minLength, c.maxLength with
  | some least, some greatest =>
    if greatest < least then [.emptyLengthRange least greatest] else []
  | _, _ => []

/-- What is wrong with the least and the greatest value. -/
def valueProblems (c : Constraints) : List Problem :=
  match c.minimum, c.maximum with
  | some least, some greatest =>
    if least.order greatest = some .gt then [.emptyValueRange least greatest] else []
  | _, _ => []

/-- What is wrong with the enumeration. -/
def enumerationProblems (c : Constraints) : List Problem :=
  match c.allowed with
  | some members => if members.isEmpty then [.emptyEnumeration] else []
  | none => []

/-- What is wrong with lengths of a type. -/
def textProblems (c : Constraints) (type : DataType) : List Problem :=
  if (c.minLength.isSome || c.maxLength.isSome) && !type.isTextual && type != .bytes then
    [.lengthOfNonText type]
  else []

/-- What is wrong with the constraints of a field of a type. -/
def problems (c : Constraints) (type : DataType) : List Problem :=
  c.patternProblems ++ c.lengthProblems ++ c.valueProblems ++ c.enumerationProblems ++
    c.textProblems type

end Constraints

/-! ## Parts of a contract -/

/-- What is wrong with a rule. -/
def QualityRule.problems (r : QualityRule) : List Problem :=
  if r.threshold.isEmpty then [.emptyThreshold] else []

/-- The path of a rule below a part: its name, or its place among the rules there. -/
def QualityRule.place (scope : Path) (r : QualityRule) (i : Nat) : Path :=
  match r.name with
  | some name => scope ++ ["quality", name]
  | none => scope ++ ["quality[" ++ Text.digits i ++ "]"]

/-- The findings about the rules below a part from the `i`-th on. -/
def QualityRule.findings (scope : Path) : Nat → List QualityRule → List Finding
  | _, [] => []
  | i, r :: rest =>
    r.problems.map (Finding.mk (r.place scope i)) ++ QualityRule.findings scope (i + 1) rest

/-- What is wrong with a field of a contract by itself. -/
def Field.problems (c : Contract) (f : Field) : List Problem :=
  (match f.attributes.references with
    | some reference => c.referenceProblems reference
    | none => []) ++
    match f with
    | .scalar _ type constraints => constraints.problems type
    | .nested .. => []

mutual

/-- The findings about a field and all that is inside of it; `scope` is the path of the list it is
in. -/
def Field.findings (c : Contract) (scope : Path) : Field → List Finding
  | .scalar attributes type constraints =>
    let path := scope ++ [attributes.name]
    ((Field.scalar attributes type constraints).problems c).map (Finding.mk path) ++
      QualityRule.findings path 0 attributes.quality
  | .nested attributes container fields =>
    let path := scope ++ [attributes.name]
    ((Field.nested attributes container fields).problems c).map (Finding.mk path) ++
      QualityRule.findings path 0 attributes.quality ++
      Field.listFindings c (path ++ ["fields"]) fields

/-- The findings about the fields of a list. -/
def Field.listFindings (c : Contract) (scope : Path) : List Field → List Finding
  | [] => []
  | f :: rest => f.findings c scope ++ Field.listFindings c scope rest

end

/-- What is wrong with a model by itself. -/
def Model.problems (m : Model) : List Problem :=
  (if m.fields.isEmpty then [.noFields] else []) ++
    ((m.primaryKey.getD []).filter fun column => (m.field? column).isNone).map .missingKeyColumn

/-- The findings about a model and all that is inside of it. -/
def Model.findings (c : Contract) (m : Model) : List Finding :=
  let path := ["models", m.name]
  m.problems.map (Finding.mk path) ++ QualityRule.findings path 0 m.quality ++
    Field.listFindings c (path ++ ["fields"]) m.fields

/-- The findings about a contract. -/
def Contract.lint (c : Contract) : LintReport :=
  { findings := QualityRule.findings [] 0 c.quality ++ c.models.flatMap (Model.findings c) }

end ContractDrift
