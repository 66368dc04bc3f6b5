import ContractDrift.Proofs.Number
import ContractDrift.Proofs.StandardJson
import Mathlib.Tactic.Positivity

/-!
# Integers as binary64 values

A coefficient has 53 binary digits.  An integer with more of them is rounded to a multiple of a
power of two, its spacing, and it stays what it is exactly if it is such a multiple already.

* `Binary64.spacing`, `Binary64.rounded` — the distance of the values around a natural, and the
  value that stands for it.
* **`Binary64.value?_ofInt`** — the number of the nearest value to an integer.
* `Binary64.IsRepresentable`, **`Binary64.rounded_eq_iff`** — an integer is its own nearest value
  exactly if it is a power of two times at most `2^53`.
* `Binary64.IsDouble.isRepresentable` — an integer that some value stands for is one of these.
-/

namespace ContractDrift

namespace Binary64

/-! ## Rounding a natural -/

/-- The distance of the values around a natural. -/
def spacing (n : ℕ) : ℕ := 2 ^ (n.log2 - 52)

/-- The multiple of its spacing that stands for a natural. -/
def rounded (n : ℕ) : ℕ := roundHalfEven n (spacing n) * spacing n

lemma spacing_pos (n : ℕ) : 0 < spacing n := Nat.two_pow_pos _

lemma roundHalfEven_of_dvd {num den : ℕ} (hden : 0 < den) (h : den ∣ num) :
    roundHalfEven num den = num / den := by
  simp [roundHalfEven, Nat.mod_eq_zero_of_dvd h, hden]

/-- What is rounded stays the same exactly if it is a multiple of the spacing. -/
lemma rounded_eq_iff_dvd {n : ℕ} : rounded n = n ↔ spacing n ∣ n := by
  constructor
  · intro h
    exact Dvd.intro_left _ h
  · intro h
    rw [rounded, roundHalfEven_of_dvd (spacing_pos n) h, Nat.div_mul_cancel h]

lemma rounded_of_log2_le {n : ℕ} (h : n.log2 ≤ 52) : rounded n = n := by
  refine rounded_eq_iff_dvd.2 ?_
  rw [spacing, Nat.sub_eq_zero_of_le h]
  exact one_dvd n

/-- A power of two times a coefficient that has room. -/
def IsRepresentable (n : ℤ) : Prop := ∃ c k : ℕ, c ≤ 2 ^ 53 ∧ n.natAbs = c * 2 ^ k

/-- **Rounding keeps exactly what has room**: a power of two times at most `2^53`. -/
theorem rounded_eq_iff {n : ℤ} : rounded n.natAbs = n.natAbs ↔ IsRepresentable n := by
  rw [rounded_eq_iff_dvd, IsRepresentable]
  generalize n.natAbs = m
  by_cases hm : m = 0
  · subst hm
    exact iff_of_true (dvd_zero _) ⟨0, 0, by simp⟩
  have least : 2 ^ m.log2 ≤ m := Nat.log2_self_le hm
  have greatest : m < 2 ^ (m.log2 + 1) := Nat.lt_log2_self
  constructor
  · rintro ⟨c, hc⟩
    refine ⟨c, m.log2 - 52, ?_, hc.trans (mul_comm _ _)⟩
    -- the quotient is below `2^53`, for the natural is below `2^53` times its spacing
    have bound : spacing m * c < spacing m * 2 ^ 53 := by
      rw [← hc, spacing, ← pow_add]
      exact greatest.trans_le (Nat.pow_le_pow_right (by decide) (by omega))
    exact (Nat.lt_of_mul_lt_mul_left bound).le
  · rintro ⟨c, k, hc, rfl⟩
    generalize hl : (c * 2 ^ k).log2 = l at least greatest
    rw [spacing, hl]
    rcases le_or_gt (l - 52) k with hk | hk
    · exact (Nat.pow_dvd_pow 2 hk).mul_left c
    · -- only the greatest coefficient reaches a spacing beyond its power of two
      have bound : c * 2 ^ k ≤ 2 ^ l := by
        calc c * 2 ^ k ≤ 2 ^ 53 * 2 ^ k := Nat.mul_le_mul_right _ hc
          _ = 2 ^ (53 + k) := (pow_add _ _ _).symm
          _ ≤ 2 ^ l := Nat.pow_le_pow_right (by decide) (by omega)
      rw [le_antisymm bound least]
      exact Nat.pow_dvd_pow 2 (by omega)

/-! ## The value next to an integer -/

lemma signed_mul (negative : Bool) (c d : ℕ) : signed negative (c * d) = signed negative c * d := by
  cases negative <;> simp [signed]

lemma binaryExponent_one {n : ℕ} (hn : n ≠ 0) : binaryExponent n 1 = n.log2 := by
  have reaches : twoPow n.log2 ≤ n := Nat.log2_self_le hn
  have log2_one : Nat.log2 1 = 0 := rfl
  simp [binaryExponent, log2_one, reaches]

lemma roundHalfEven_one (n : ℕ) : roundHalfEven n 1 = n := by
  rw [roundHalfEven_of_dvd one_pos (one_dvd n), Nat.div_one]

/-- The number of a coefficient at an exponent that is not negative. -/
lemma rational_natCast (negative : Bool) (c k : ℕ) :
    rational negative c k = ((signed negative (c * 2 ^ k) : ℤ) : ℚ) := by
  rw [rational, signed_mul]
  push_cast
  rw [zpow_natCast]

/-- The number of a coefficient that was scaled up to a negative exponent. -/
lemma rational_scaled (negative : Bool) (c k : ℕ) :
    rational negative (c * twoPow k) (-k) = ((signed negative c : ℤ) : ℚ) := by
  have hpow : ((twoPow k : ℕ) : ℚ) = 2 ^ k := Nat.cast_pow 2 k
  rw [rational, signed_mul, Int.cast_mul, Int.cast_natCast, hpow, zpow_neg, zpow_natCast, mul_assoc,
    mul_inv_cancel₀ (by positivity), mul_one]

/-- A coefficient that rounding carried to the next power of two is halved. -/
lemma rational_carry (negative : Bool) (exponent : ℤ) :
    rational negative (twoPow 52) (exponent + 1) = rational negative (twoPow 53) exponent := by
  have hpow : signed negative (twoPow 53) = signed negative (twoPow 52) * 2 :=
    signed_mul negative (twoPow 52) 2
  rw [rational, rational, hpow, zpow_add_one₀ two_ne_zero]
  push_cast
  ring

/-- The number of the nearest value to a natural, with a sign. -/
lemma value?_ofRatio_one (negative : Bool) {n : ℕ} (h : n.log2 < 1023) :
    (ofRatio negative n 1).value? = some ((signed negative (rounded n) : ℚ) : WithBotTop ℚ) := by
  by_cases hn : n = 0
  · subst hn
    cases negative <;> simp [ofRatio, value?, zero, rational, signed, rounded, roundHalfEven]
  rw [ofRatio, if_neg hn, binaryExponent_one hn]
  extract_lets exponent coefficient
  have hexponent : exponent = (n.log2 : ℤ) - 52 := by
    simp only [exponent, leastExponent]
    omega
  have hvalue : rational negative coefficient exponent = signed negative (rounded n) := by
    rcases le_or_gt 52 n.log2 with hl | hl
    · have hk : exponent = (n.log2 - 52 : ℕ) := by omega
      have hcoefficient : coefficient = roundHalfEven n (spacing n) := by
        simp [coefficient, hk, spacing, twoPow]
      rw [hcoefficient, hk, rational_natCast, rounded, spacing]
    · have hk : exponent = -(52 - n.log2 : ℕ) := by omega
      have hcoefficient : coefficient = n * twoPow (52 - n.log2) := by
        have hneg : ¬ 0 ≤ exponent := by omega
        have htoNat : (-exponent).toNat = 52 - n.log2 := by omega
        simp only [coefficient, if_neg hneg, htoNat, roundHalfEven_one]
      rw [hcoefficient, hk, rational_scaled, rounded_of_log2_le hl.le]
  rw [← hvalue]
  split
  rename_i hcarry
  split
  · rename_i hgreat
    split at hcarry <;> cases hcarry <;> simp only [greatestExponent] at hgreat <;> omega
  · split at hcarry
    · rename_i htop
      cases hcarry
      rw [value?, rational_carry, htop]
    · cases hcarry
      rfl

/-- **The number of the nearest value to an integer** of 64 bits: it is rounded to a multiple of its
spacing. -/
theorem value?_ofInt {n : ℤ} (h : Json.inIntegerRange n = true) :
    (ofInt n).value? = some ((signed (n < 0) (rounded n.natAbs) : ℚ) : WithBotTop ℚ) :=
  value?_ofRatio_one _ (log2_natAbs_lt h)

lemma signed_natAbs (n : ℤ) : signed (n < 0) n.natAbs = n := by
  simp only [signed, decide_eq_true_eq]
  split <;> omega

lemma natAbs_signed (negative : Bool) (c : ℕ) : (signed negative c).natAbs = c := by
  cases negative <;> simp [signed]

/-- The nearest value to an integer stands for it exactly if the integer is representable. -/
theorem value?_ofInt_eq_iff {n : ℤ} (h : Json.inIntegerRange n = true) :
    (ofInt n).value? = some ((n : ℚ) : WithBotTop ℚ) ↔ IsRepresentable n := by
  rw [value?_ofInt h, ← rounded_eq_iff, Option.some_inj, WithBotTop.coe_injective.eq_iff,
    Int.cast_inj]
  constructor
  · intro hn
    have habs := congrArg Int.natAbs hn
    rwa [natAbs_signed] at habs
  · intro hn
    rw [hn, signed_natAbs]

/-! ## Values of the format -/

/-- A finite value of the format: a coefficient with 53 binary digits at an exponent that it has. -/
def IsDouble : Binary64 → Prop
  | .finite _ coefficient exponent =>
      coefficient < 2 ^ 53 ∧ leastExponent ≤ exponent ∧ exponent ≤ greatestExponent
  | _ => False

/-- An integer that a value of the format stands for is representable. -/
lemma IsDouble.isRepresentable {x : Binary64} {n : ℤ} (hx : x.IsDouble)
    (hn : x.value? = some ((n : ℚ) : WithBotTop ℚ)) : IsRepresentable n := by
  cases x with
  | nan => exact hx.elim
  | infinite negative => exact hx.elim
  | finite negative c e =>
      have hnumber : rational negative c e = n :=
        WithBotTop.coe_injective (Option.some_inj.1 hn)
      have hc : c < 2 ^ 53 := hx.1
      rcases le_total 0 e with he | he
      · obtain ⟨k, rfl⟩ := Int.eq_ofNat_of_zero_le he
        rw [rational_natCast, Int.cast_inj] at hnumber
        exact ⟨c, k, hc.le, by rw [← hnumber, natAbs_signed]⟩
      · -- the coefficient is the integer times a power of two, so the integer is small itself
        obtain ⟨k, hk⟩ := Int.eq_ofNat_of_zero_le (Int.neg_nonneg_of_nonpos he)
        obtain rfl : e = -k := by omega
        have hscaled : signed negative c = n * 2 ^ k := by
          rw [rational, zpow_neg, zpow_natCast, ← div_eq_mul_inv,
            div_eq_iff (by positivity)] at hnumber
          exact_mod_cast hnumber
        have habs := congrArg Int.natAbs hscaled
        rw [natAbs_signed, Int.natAbs_mul, Int.natAbs_pow] at habs
        refine ⟨n.natAbs, 0, ?_, by simp⟩
        calc n.natAbs ≤ n.natAbs * 2 ^ k := Nat.le_mul_of_pos_right _ (Nat.two_pow_pos k)
          _ = c := habs.symm
          _ ≤ 2 ^ 53 := hc.le

end Binary64

end ContractDrift
