/-!
# Patterns

A regular expression as far as it matters for whether it can be used: what it is built from, how
deep it is nested, and how many states a machine for it needs.

* `Pattern` — the expressions.
* `Pattern.nesting`, `Pattern.states`.
* `Pattern.isUsable` — whether a pattern stays within both limits.
-/

namespace ContractDrift

/-- A regular expression. -/
inductive Pattern where
  | empty
  /-- A change of the flags for what follows. -/
  | flags
  /-- A character of so many bytes. -/
  | literal (bytes : Nat)
  /-- A condition on the place. -/
  | assertion
  /-- Any character of a set, which needs so many states and is nested so deep. -/
  | set (states nesting : Nat)
  | group (p : Pattern)
  | repetition (p : Pattern) (least : Nat) (most : Option Nat)
  | sequence (ps : List Pattern)
  | choice (ps : List Pattern)
  deriving Inhabited

namespace Pattern

/-- Parts one after the other; a single part is itself. -/
def ofParts : List Pattern → Pattern
  | [] => .empty
  | [p] => p
  | ps => .sequence ps

/-- Branches of which one has to match; a single branch is itself. -/
def ofBranches : List Pattern → Pattern
  | [p] => p
  | ps => .choice ps

/-- Whether a pattern can be repeated. -/
def isRepeatable : Pattern → Bool
  | .empty | .flags => false
  | _ => true

mutual

/-- How deep groups, repetitions, sequences, choices and sets are nested. -/
def nesting : Pattern → Nat
  | .empty | .flags | .literal _ | .assertion => 0
  | .set _ depth => depth
  | .group p => p.nesting + 1
  | .repetition p _ _ => p.nesting + 1
  | .sequence ps => listNesting ps + 1
  | .choice ps => listNesting ps + 1

/-- The nesting of the deepest of several patterns. -/
def listNesting : List Pattern → Nat
  | [] => 0
  | p :: ps => max p.nesting (listNesting ps)

end

mutual

/-- How many states a machine for a pattern has: one for each byte, and a repeated pattern as often
as it must or may come. -/
def states : Pattern → Nat
  | .empty | .flags => 0
  | .literal bytes => bytes
  | .assertion => 1
  | .set n _ => n
  | .group p => p.states + 2
  | .repetition p least most =>
    match most with
    | none => max least 1 * p.states + 2
    | some most => least * p.states + (most - least) * (p.states + 1)
  | .sequence ps => listStates ps
  | .choice ps => listStates ps + 2

/-- The states of several patterns together. -/
def listStates : List Pattern → Nat
  | [] => 0
  | p :: ps => p.states + listStates ps

end

/-- The deepest nesting allowed. -/
def greatestNesting : Nat := 250

/-- The greatest number of states allowed: ten mebibytes of 32 bytes each. -/
def greatestStates : Nat := 10 * 1048576 / 32

/-- Whether a pattern stays within the limits. -/
def isUsable (p : Pattern) : Bool := p.nesting ≤ greatestNesting && p.states ≤ greatestStates

end Pattern

end ContractDrift
