import ContractDrift.Loading.Reference

/-!
# Loading quality rules

A declared rule becomes a rule of the contract: its kind follows from its type and metric, and the
keywords that say what its value must be make up one interval.

* `checkUnique` — the check that no name of a scope repeats.
* `RuleDeclaration.threshold` — the interval of a rule.
* `RuleDeclaration.toRule`, `LoadContext.rules` — a rule, and a section of rules.
-/

namespace ContractDrift

/-- The first name that came before. -/
def repeatedName? (earlier : List String) : List String → Option String
  | [] => none
  | name :: rest =>
    if earlier.contains name then some name else repeatedName? (name :: earlier) rest

/-- The check that no name of a scope repeats. -/
def checkUnique (scope kind : String) (names : List String) : Except LoadError Unit :=
  match repeatedName? [] names with
  | some name => .error (.duplicateName scope kind name)
  | none => .ok ()

/-! ## Thresholds -/

/-- An interval with one more lower bound. -/
def Threshold.withLower (t : Threshold) (value : Option Binary64) (inclusive : Bool) : Threshold :=
  match value with
  | some x => { t with lower := Side.lower.tighter t.lower ⟨x, inclusive⟩ }
  | none => t

/-- An interval with one more upper bound. -/
def Threshold.withUpper (t : Threshold) (value : Option Binary64) (inclusive : Bool) : Threshold :=
  match value with
  | some x => { t with upper := Side.upper.tighter t.upper ⟨x, inclusive⟩ }
  | none => t

/-- The seconds in a unit of time. -/
def secondsPer? (unit : String) : Option Nat :=
  let word := Text.canonical unit
  if ["s", "sec", "second", "seconds"].contains word then some 1
  else if ["m", "min", "minute", "minutes"].contains word then some 60
  else if ["h", "hour", "hours"].contains word then some 3600
  else if ["d", "day", "days"].contains word then some 86400
  else none

namespace RuleDeclaration

/-- The interval of the values that satisfy all keywords. A range needs two values. -/
def threshold (r : RuleDeclaration) : Except ThresholdProblem Threshold :=
  let t : Threshold := {}
  let t := (t.withLower r.mustBe true).withUpper r.mustBe true
  let t := t.withLower r.mustBeGreaterThan false
  let t := t.withLower r.mustBeAtLeast true
  let t := t.withUpper r.mustBeLessThan false
  let t := t.withUpper r.mustBeAtMost true
  match r.mustBeBetween with
  | none => .ok t
  | some [low, high] => .ok ((t.withLower (some low) true).withUpper (some high) true)
  | some values => .error (.range values.length)

/-! ## Kinds -/

/-- The kind of a rule and its parameters. A type that is none of the kinds names an engine. -/
def kind (r : RuleDeclaration) (path : String) : Except LoadError (QualityKind × Parameters) :=
  match r.type, r.type.map Text.canonical with
  | _, some "sql" => .ok (.sql, r.parameters)
  | _, some "text" => .ok (.text, r.parameters)
  | _, some "custom" => .ok (.custom, r.parameters)
  | some engine, some word =>
    if word = "library" then ofMetric r path
    else
      .ok (.custom,
        if r.parameters.contains "engine" then r.parameters
        else r.parameters.insert "engine" (.text engine))
  | _, _ => ofMetric r path
where
  /-- The kind of a rule about a metric. -/
  ofMetric (r : RuleDeclaration) (path : String) : Except LoadError (QualityKind × Parameters) :=
    let metric := r.metric.getD ""
    match QualityKind.ofMetric? metric with
    | some kind => .ok (kind, r.parameters)
    | none => .error (.unknownMetric path metric)

/-- The rule of a declaration at a path. The age of records is counted in seconds; of other kinds
the unit is a parameter. -/
def toRule (r : RuleDeclaration) (path : String) : Except LoadError QualityRule := do
  let (kind, parameters) ← r.kind path
  let threshold ← match r.threshold with
    | .ok t => .ok t
    | .error problem => .error (.invalidThreshold path problem)
  let rule : QualityRule :=
    { name := r.name, kind, threshold, description := r.description, parameters }
  match r.unit with
  | none => .ok rule
  | some unit =>
    if kind = .freshness then
      match secondsPer? unit with
      | some n => .ok { rule with threshold := threshold.scaled (.ofInt n) }
      | none => .error (.invalidThreshold path (.timeUnit unit))
    else .ok (rule.withParameter "unit" (.text unit))

/-! ## Referenced specifications -/

/-- Whether the engine of a rule has one specification for each model. -/
def isPerModel (r : RuleDeclaration) : Bool :=
  r.type.any fun t => Text.canonical t = "great-expectations"

end RuleDeclaration

namespace LoadContext

/-- A value, or the content of the document that it refers to. -/
def inlined (context : LoadContext) (v : Json) : Except LoadError Json :=
  match (v.get? "$ref").bind Json.text? with
  | some reference => context.specification reference
  | none => .ok v

/-- A specification with what it refers to. -/
def inlinedSpecification (context : LoadContext) (perModel : Bool) (v : Json) :
    Except LoadError Json :=
  match perModel, v with
  | true, .object entries => do
    let entries ← entries.mapM fun (model, w) => do
      let w ← context.inlined w
      .ok (model, w)
    .ok (.object entries)
  | _, v => context.inlined v

/-- A rule with the specification that it refers to. -/
def withSpecification (context : LoadContext) (r : RuleDeclaration) :
    Except LoadError RuleDeclaration :=
  match r.parameters.get? "specification" with
  | none => .ok r
  | some v =>
    if context.settings.inlineQuality then do
      let w ← context.inlinedSpecification r.isPerModel v
      .ok { r with parameters := r.parameters.insert "specification" w }
    else .ok r

/-- The path of a rule: its name, or its place in the section. -/
def rulePath (scope : String) (r : RuleDeclaration) (i : Nat) : String :=
  match r.name with
  | some name => scope ++ "." ++ name
  | none => scope ++ "[" ++ Text.digits i ++ "]"

/-- The rules of a section from the `i`-th on. -/
def rulesFrom (context : LoadContext) (scope : String) :
    Nat → List RuleDeclaration → Except LoadError (List QualityRule)
  | _, [] => .ok []
  | i, r :: rest => do
    let path := rulePath scope r i
    let r ← context.withSpecification r
    let rule ← r.toRule path
    let rules ← rulesFrom context scope (i + 1) rest
    .ok (rule :: rules)

/-- The rules of a section; names do not repeat. -/
def rules (context : LoadContext) (scope : String) (section? : Option (List RuleDeclaration)) :
    Except LoadError (List QualityRule) := do
  let declared := section?.getD []
  checkUnique scope "quality rule" (declared.filterMap RuleDeclaration.name)
  context.rulesFrom scope 0 declared

end LoadContext

end ContractDrift
