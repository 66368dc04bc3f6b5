import ContractDrift.Decimal.Binary64
import Mathlib.Algebra.Order.Field.Power
import Mathlib.Data.Rat.Cast.Order
import Mathlib.Order.WithBotTop
import Mathlib.Tactic.Ring

/-!
# The number that a binary64 value stands for

A value is a sign, a coefficient and a power of two, and many of them stand for one number.  What
is compared are the numbers.

* `Binary64.value?` — the number, an infinity included; NaN has none.
* **`Binary64.order_eq`** — comparing two values is comparing their numbers.
* `Binary64.same_iff` — two values are the same if both stand for one number.
-/

namespace ContractDrift

namespace Binary64

/-- The number of a finite value. -/
def rational (negative : Bool) (coefficient : ℕ) (exponent : ℤ) : ℚ :=
  signed negative coefficient * 2 ^ exponent

/-- The number that a value stands for. -/
def value? : Binary64 → Option (WithBotTop ℚ)
  | .nan => none
  | .infinite true => some ⊥
  | .infinite false => some ⊤
  | .finite negative coefficient exponent => some (rational negative coefficient exponent : ℚ)

lemma value?_eq_none_iff {a : Binary64} : a.value? = none ↔ a = .nan := by
  rcases a with _ | (_ | _) | _ <;> simp [value?]

/-- A number is a multiple of the power of any smaller exponent. -/
lemma rational_eq (negative : Bool) (coefficient : ℕ) {exponent least : ℤ}
    (h : least ≤ exponent) :
    rational negative coefficient exponent
      = ((signed negative coefficient * twoPow (exponent - least).toNat : ℤ) : ℚ) * 2 ^ least := by
  have hexp : exponent = ((exponent - least).toNat : ℤ) + least := by omega
  have hpow : (2 : ℚ) ^ exponent = (2 : ℚ) ^ (exponent - least).toNat * 2 ^ least := by
    rw [← zpow_natCast, ← zpow_add₀ two_ne_zero, ← hexp]
  have hcast : ((twoPow (exponent - least).toNat : ℕ) : ℚ) = 2 ^ (exponent - least).toNat :=
    Nat.cast_pow 2 _
  rw [rational, hpow, Int.cast_mul, Int.cast_natCast, hcast, mul_assoc]

/-- Coefficients at one exponent are compared as their numbers are. -/
lemma compare_scaled (m n : ℤ) (least : ℤ) :
    compare m n = cmp ((m : ℚ) * 2 ^ least) ((n : ℚ) * 2 ^ least) := by
  rw [cmp_mul_pos_right (zpow_pos two_pos least), Int.cast_strictMono.cmp_map_eq, cmp_eq_compare]

/-- **Comparing two values is comparing their numbers.** -/
theorem order_eq (a b : Binary64) : a.order b = Option.map₂ cmp a.value? b.value? := by
  have bot_lt : ∀ {x : WithBotTop ℚ}, x ≠ ⊥ → some Ordering.lt = some (cmp ⊥ x) := fun hx =>
    congrArg some ((cmp_eq_lt_iff _ _).2 (bot_lt_iff_ne_bot.2 hx)).symm
  have lt_top : ∀ {x : WithBotTop ℚ}, x ≠ ⊤ → some Ordering.lt = some (cmp x ⊤) := fun hx =>
    congrArg some ((cmp_eq_lt_iff _ _).2 (lt_top_iff_ne_top.2 hx)).symm
  have top_gt : ∀ {x : WithBotTop ℚ}, x ≠ ⊤ → some Ordering.gt = some (cmp ⊤ x) := fun hx =>
    congrArg some ((cmp_eq_gt_iff _ _).2 (lt_top_iff_ne_top.2 hx)).symm
  have gt_bot : ∀ {x : WithBotTop ℚ}, x ≠ ⊥ → some Ordering.gt = some (cmp x ⊥) := fun hx =>
    congrArg some ((cmp_eq_gt_iff _ _).2 (bot_lt_iff_ne_bot.2 hx)).symm
  match a, b with
  | .nan, b => exact (order_nan_left b).trans (Option.map₂_none_left _ _).symm
  | a, .nan => exact (order_nan_right a).trans (Option.map₂_none_right _ _).symm
  | .infinite true, .infinite true => exact congrArg some (cmp_self_eq_eq _).symm
  | .infinite false, .infinite false => exact congrArg some (cmp_self_eq_eq _).symm
  | .infinite true, .infinite false => exact bot_lt (by simp)
  | .infinite false, .infinite true => exact gt_bot (by simp)
  | .infinite true, .finite n c e => exact bot_lt (by simp)
  | .infinite false, .finite n c e => exact top_gt (by simp)
  | .finite n c e, .infinite true => exact gt_bot (by simp)
  | .finite n c e, .infinite false => exact lt_top (by simp)
  | .finite n c e, .finite m d f =>
      -- at the smaller of the two exponents both coefficients are whole
      have numbers : compare (signed n c * twoPow (e - min e f).toNat)
          (signed m d * twoPow (f - min e f).toNat)
            = cmp (rational n c e : WithBotTop ℚ) (rational m d f) := by
        rw [WithBotTop.coe_strictMono.cmp_map_eq, rational_eq n c (min_le_left e f),
          rational_eq m d (min_le_right e f)]
        exact compare_scaled _ _ _
      exact congrArg some numbers

/-- Two values are the same if both stand for one number. -/
theorem same_iff {a b : Binary64} :
    a.same b = true ↔ ∃ x, a.value? = some x ∧ b.value? = some x := by
  rw [same, beq_iff_eq, order_eq]
  cases a.value? with
  | none =>
      rw [Option.map₂_none_left]
      simp
  | some x =>
      cases b.value? with
      | none =>
          rw [Option.map₂_none_right]
          simp
      | some y =>
          rw [Option.map₂_some_some, Option.some.injEq, cmp_eq_eq_iff]
          simp [eq_comm]

/-- For numbers, being the same is standing for the same number. -/
theorem same_iff_value?_eq {a b : Binary64} (ha : a ≠ .nan) :
    a.same b = true ↔ a.value? = b.value? := by
  rw [same_iff]
  cases hx : a.value? with
  | none => exact absurd (value?_eq_none_iff.1 hx) ha
  | some x => simp [eq_comm]

end Binary64

end ContractDrift
