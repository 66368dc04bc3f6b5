import ContractDrift.Contract.Relation

/-!
# Thresholds

The interval of metric values that a quality rule accepts. Each end may be missing, and an end
belongs to the interval or does not.

* `Bound`, `Threshold` — one end, and the interval.
* `Threshold.isEmpty`, `Threshold.isUnbounded` — no value, every value.
* `Side.tighter` — of two bounds on one side, the one that leaves fewer values.
* `Side.relation`, `Threshold.relation` — how a new interval lies to the old one.
* `Threshold.scaled` — the interval in another unit.
-/

namespace ContractDrift

/-- One end of an interval. -/
structure Bound where
  value : Binary64
  /-- Whether the value itself is accepted. -/
  inclusive : Bool
  deriving DecidableEq, Repr, Inhabited

namespace Bound

/-- Whether two bounds are the same end, their values compared as numbers. -/
def same (a b : Bound) : Bool := a.value.same b.value && a.inclusive == b.inclusive

/-- Whether two optional bounds are the same end. -/
def sameOptional : Option Bound → Option Bound → Bool
  | some a, some b => a.same b
  | none, none => true
  | _, _ => false

/-- The bound in another unit. -/
def scaled (factor : Binary64) (b : Bound) : Bound := { b with value := b.value.mul factor }

end Bound

/-- The side of an interval that a bound closes. -/
inductive Side where
  | lower
  | upper
  deriving DecidableEq, Repr

namespace Side

/-- Whether moving a bound from `old` to `new` leaves fewer values, for values that differ. -/
def tightens (side : Side) (old new : Binary64) : Bool :=
  match side with
  | .lower => old.below new
  | .upper => new.below old

/-- Of the bound so far and a candidate, the one that leaves fewer values. -/
def tighter (side : Side) (current : Option Bound) (candidate : Bound) : Option Bound :=
  match current with
  | none => some candidate
  | some current =>
    let keep :=
      if current.value.same candidate.value then !current.inclusive
      else side.tightens candidate.value current.value
    some (if keep then current else candidate)

/-- How an interval closed by `new` lies to one closed by `old`. -/
def compare (side : Side) (old new : Bound) : Relation :=
  match old.value.order new.value with
  | none => .incomparable
  | some .eq =>
    if old.inclusive = new.inclusive then .equal
    else if old.inclusive then .narrower
    else .wider
  | some .lt => match side with
    | .lower => .narrower
    | .upper => .wider
  | some .gt => match side with
    | .lower => .wider
    | .upper => .narrower

/-- How the side lies to the old one; a missing bound closes nothing. -/
def relation (side : Side) (old new : Option Bound) : Relation :=
  Relation.ofOptional side.compare old new

end Side

/-- An interval of accepted values. -/
structure Threshold where
  lower : Option Bound := none
  upper : Option Bound := none
  deriving DecidableEq, Repr, Inhabited

namespace Threshold

/-- Exactly one value. -/
def exactly (x : Binary64) : Threshold := { lower := some ⟨x, true⟩, upper := some ⟨x, true⟩ }

/-- A value and all above it. -/
def atLeast (x : Binary64) : Threshold := { lower := some ⟨x, true⟩ }

/-- A value and all below it. -/
def atMost (x : Binary64) : Threshold := { upper := some ⟨x, true⟩ }

/-- All above a value. -/
def greaterThan (x : Binary64) : Threshold := { lower := some ⟨x, false⟩ }

/-- All below a value. -/
def lessThan (x : Binary64) : Threshold := { upper := some ⟨x, false⟩ }

/-- Two values and all between them. -/
def between (low high : Binary64) : Threshold :=
  { lower := some ⟨low, true⟩, upper := some ⟨high, true⟩ }

/-- Whether every value is accepted. -/
def isUnbounded (t : Threshold) : Bool := t.lower.isNone && t.upper.isNone

/-- Whether no value is accepted. -/
def isEmpty (t : Threshold) : Bool :=
  match t.lower, t.upper with
  | some l, some u =>
    u.value.below l.value || (l.value.same u.value && !(l.inclusive && u.inclusive))
  | _, _ => false

/-- Whether two thresholds have the same ends, compared as numbers. -/
def same (s t : Threshold) : Bool :=
  Bound.sameOptional s.lower t.lower && Bound.sameOptional s.upper t.upper

/-- The threshold in another unit. -/
def scaled (factor : Binary64) (t : Threshold) : Threshold :=
  { lower := t.lower.map (Bound.scaled factor), upper := t.upper.map (Bound.scaled factor) }

/-- How the values that `new` accepts lie to those that `old` accepts. -/
def relation (old new : Threshold) : Relation :=
  (Side.lower.relation old.lower new.lower).combine (Side.upper.relation old.upper new.upper)

end Threshold

end ContractDrift
