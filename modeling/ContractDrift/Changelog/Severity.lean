import ContractDrift.Text.Blank

/-!
# Severities

How much a change matters to those who use the data.

* `Severity` — the three grades, ordered by `Severity.rank`.
* `Severity.parse?` — the grade a text names, or the message that it names none.
-/

namespace ContractDrift

/-- The impact of a change. -/
inductive Severity where
  /-- Documentation and metadata. -/
  | info
  /-- Safe for those who use the data, but worth knowing. -/
  | warning
  /-- Those who use the data have to act. -/
  | breaking
  deriving DecidableEq, Repr, Inhabited

namespace Severity

/-- The name shown. -/
def name : Severity → String
  | .info => "info"
  | .warning => "warning"
  | .breaking => "breaking"

/-- The place in the order, the least severe first. -/
def rank : Severity → Nat
  | .info => 0
  | .warning => 1
  | .breaking => 2

instance : LE Severity := ⟨fun a b => a.rank ≤ b.rank⟩

instance (a b : Severity) : Decidable (a ≤ b) := inferInstanceAs (Decidable (a.rank ≤ b.rank))

/-- The more severe of two. -/
def max (a b : Severity) : Severity := if a ≤ b then b else a

/-- All severities, the least severe first. -/
def all : List Severity := [.info, .warning, .breaking]

/-- A text that names no severity. -/
structure Unknown where
  /-- The text, trimmed and in lower case. -/
  word : String
  deriving DecidableEq, Repr

/-- The message about a text that names no severity. -/
def Unknown.message (u : Unknown) : String :=
  "unknown severity '" ++ u.word ++ "' (expected info, warning or breaking)"

/-- The severity that a text names, in any letter case and with blanks around it. -/
def parse (s : String) : Except Unknown Severity :=
  match Text.canonical s with
  | "info" => .ok .info
  | "warning" => .ok .warning
  | "warn" => .ok .warning
  | "breaking" => .ok .breaking
  | word => .error ⟨word⟩

theorem le_iff_rank_le {a b : Severity} : a ≤ b ↔ a.rank ≤ b.rank := Iff.rfl

theorem rank_injective {a b : Severity} (h : a.rank = b.rank) : a = b := by
  cases a <;> cases b <;> first | rfl | cases h

theorem info_le (a : Severity) : Severity.info ≤ a := Nat.zero_le a.rank

theorem le_trans {a b c : Severity} (hab : a ≤ b) (hbc : b ≤ c) : a ≤ c := Nat.le_trans hab hbc

theorem le_antisymm {a b : Severity} (hab : a ≤ b) (hba : b ≤ a) : a = b :=
  rank_injective (Nat.le_antisymm hab hba)

theorem le_max_left (a b : Severity) : a ≤ a.max b := by
  unfold max
  split
  · assumption
  · exact Nat.le_refl a.rank

theorem le_max_right (a b : Severity) : b ≤ a.max b := by
  unfold max
  split
  · exact Nat.le_refl b.rank
  · exact Nat.le_of_not_le ‹_›

theorem max_eq_or (a b : Severity) : a.max b = a ∨ a.max b = b := by
  unfold max
  split
  · exact .inr rfl
  · exact .inl rfl

theorem max_right_comm (a b c : Severity) : (a.max b).max c = (a.max c).max b := by
  cases a <;> cases b <;> cases c <;> rfl

end Severity

end ContractDrift
