import ContractDrift.Contract.Threshold
import ContractDrift.Ordered.Members

/-!
# Constraints on scalar values

What a scalar field demands of its values beyond their type.

* `Constraints` — the eight keywords and the set of allowed values.
* `Constraints.lowerBound`, `Constraints.upperBound` — the effective ends, when an inclusive and an
  exclusive keyword meet.
* `Constraints.relation` — how the accepted values of new constraints lie to the old ones.
-/

namespace ContractDrift

/-- The constraints of a scalar field. -/
structure Constraints where
  minLength : Option Nat := none
  maxLength : Option Nat := none
  pattern : Option String := none
  /-- A named form of text, such as `email` or `uuid`. -/
  format : Option String := none
  minimum : Option Binary64 := none
  maximum : Option Binary64 := none
  exclusiveMinimum : Option Binary64 := none
  exclusiveMaximum : Option Binary64 := none
  /-- The allowed values, each by its canonical text. -/
  allowed : Option (Members String) := none
  deriving DecidableEq, Inhabited

namespace Constraints

/-- Whether nothing is demanded. -/
def isEmpty (c : Constraints) : Bool :=
  c.minLength.isNone && c.maxLength.isNone && c.pattern.isNone && c.format.isNone &&
    c.minimum.isNone && c.maximum.isNone && c.exclusiveMinimum.isNone &&
    c.exclusiveMaximum.isNone && c.allowed.isNone

/-- The end that an inclusive and an exclusive keyword set together. -/
def effectiveBound (side : Side) (inclusive exclusive : Option Binary64) : Option Bound :=
  let bound := inclusive.map fun x => ⟨x, true⟩
  match exclusive with
  | some x => side.tighter bound ⟨x, false⟩
  | none => bound

/-- The effective lower end of `minimum` and `exclusiveMinimum`. -/
def lowerBound (c : Constraints) : Option Bound :=
  effectiveBound .lower c.minimum c.exclusiveMinimum

/-- The effective upper end of `maximum` and `exclusiveMaximum`. -/
def upperBound (c : Constraints) : Option Bound :=
  effectiveBound .upper c.maximum c.exclusiveMaximum

/-- How a new set of allowed values lies to the old one. -/
def relationOfAllowed (old new : Members String) : Relation :=
  if old = new then .equal
  else if new.isSubset old then .narrower
  else if old.isSubset new then .wider
  else .incomparable

/-- How the values accepted under `new` lie to those accepted under `old`. -/
def relation (old new : Constraints) : Relation :=
  let lengths := fun (a b : Nat) => some (compare a b)
  Relation.all [
    Relation.ofLower lengths old.minLength new.minLength,
    Relation.ofUpper lengths old.maxLength new.maxLength,
    Relation.ofRestriction old.pattern new.pattern,
    Relation.ofRestriction old.format new.format,
    Side.lower.relation old.lowerBound new.lowerBound,
    Side.upper.relation old.upperBound new.upperBound,
    Relation.ofOptional relationOfAllowed old.allowed new.allowed]

/-- Whether two optional numbers are both absent or the same number. -/
def sameNumber : Option Binary64 → Option Binary64 → Bool
  | some a, some b => a.same b
  | none, none => true
  | _, _ => false

/-- Whether two constraints are the same, numbers compared as numbers. -/
def same (a b : Constraints) : Bool :=
  a.minLength == b.minLength && a.maxLength == b.maxLength && a.pattern == b.pattern &&
    a.format == b.format && sameNumber a.minimum b.minimum && sameNumber a.maximum b.maximum &&
    sameNumber a.exclusiveMinimum b.exclusiveMinimum &&
    sameNumber a.exclusiveMaximum b.exclusiveMaximum && a.allowed == b.allowed

end Constraints

end ContractDrift
