import ContractDrift.Decimal.Binary64

/-!
# Narrower and wider

Constraints and thresholds describe sets of accepted values. When one changes, the question is how
the new set lies to the old one: equal, narrower, wider, or neither contains the other. A
description with several independent sides is compared side by side and the answers are combined.

* `Relation` — the four answers.
* `Relation.combine`, `Relation.all` — the answer for several sides.
* `Relation.ofLower`, `Relation.ofUpper`, `Relation.ofRestriction` — the answer for one side.
* `Relation.reverse` — the answer for the opposite direction.
-/

namespace ContractDrift

/-- How a new set of accepted values lies to the old one. -/
inductive Relation where
  | equal
  /-- The new set is a strict part of the old one. -/
  | narrower
  /-- The old set is a strict part of the new one. -/
  | wider
  /-- Neither contains the other. -/
  | incomparable
  deriving DecidableEq, Repr, Inhabited

namespace Relation

/-- The name shown. -/
def name : Relation → String
  | .equal => "equal"
  | .narrower => "narrower"
  | .wider => "wider"
  | .incomparable => "incomparable"

/-- The relation of a name. -/
def ofName? : String → Option Relation
  | "equal" => some .equal
  | "narrower" => some .narrower
  | "wider" => some .wider
  | "incomparable" => some .incomparable
  | _ => none

/-- The relation seen in the opposite direction. -/
def reverse : Relation → Relation
  | .narrower => .wider
  | .wider => .narrower
  | r => r

/-- The relation of a set with two independent sides. -/
def combine : Relation → Relation → Relation
  | .equal, r => r
  | r, .equal => r
  | .narrower, .narrower => .narrower
  | .wider, .wider => .wider
  | _, _ => .incomparable

/-- The relation of a set with any number of independent sides. -/
def all (sides : List Relation) : Relation := sides.foldl combine .equal

/-- A side on which a greater limit leaves fewer values. -/
def ofOrdering : Option Ordering → Relation
  | some .eq => .equal
  | some .gt => .narrower
  | some .lt => .wider
  | none => .incomparable

/-- A side that may have no limit: to gain one is narrower, to lose it is wider. -/
def ofOptional {α : Type} (compare : α → α → Relation) : Option α → Option α → Relation
  | none, none => .equal
  | none, some _ => .narrower
  | some _, none => .wider
  | some old, some new => compare old new

/-- The relation of two lower limits; `order` compares limits. -/
def ofLower {α : Type} (order : α → α → Option Ordering) (old new : Option α) : Relation :=
  ofOptional (fun old new => ofOrdering (order new old)) old new

/-- The relation of two upper limits; `order` compares limits. -/
def ofUpper {α : Type} (order : α → α → Option Ordering) (old new : Option α) : Relation :=
  ofOptional (fun old new => ofOrdering (order old new)) old new

/-- The relation of two restrictions about which nothing but equality is known. -/
def ofRestriction {α : Type} [DecidableEq α] (old new : Option α) : Relation :=
  ofOptional (fun old new => if old = new then .equal else .incomparable) old new

theorem combine_assoc (r s t : Relation) :
    (r.combine s).combine t = r.combine (s.combine t) := by
  cases r <;> cases s <;> cases t <;> rfl

theorem reverse_combine (r s : Relation) :
    (r.combine s).reverse = r.reverse.combine s.reverse := by
  cases r <;> cases s <;> rfl

end Relation

end ContractDrift
