import ContractDrift.Proofs.Nearest
import Mathlib.Algebra.Order.Floor.Semifield
import Mathlib.Data.Rat.Floor

/-!
# The shortest decimal reads back

The search for a shortest decimal looks at the two decimals next to a value, with one digit, with
two digits and so on, and takes the first one in the interval of the value.  With 17 digits the two
decimals are nearer to each other than two values are, so that one of them is in the interval, and
the search always finds something.

* `Binary64.Decimal.value` — the number of a decimal.
* `Binary64.readsBack_iff` — the test is whether a decimal is in the interval.
* `Binary64.zpow_le_of_magnitude` — the first digit is not placed too far to the left;
  `Binary64.readsBack_seventeen` — with 17 digits from there one of two decimals reads back.
* **`Binary64.roundsTo_shortest`** — what is found is in the interval of the value.
-/

namespace ContractDrift

namespace Binary64

variable {c : ℕ} {e : ℤ}

/-- The number of a decimal. -/
def Decimal.value (x : Decimal) : ℚ := x.digits * 10 ^ x.exponent

/-! ## The test -/

/-- A power, cleared of a negative exponent. -/
lemma zpow_mul_cleared {b : ℚ} (hb : b ≠ 0) (x : ℤ) :
    b ^ x * (if 0 ≤ -x then b ^ (-x).toNat else 1) = if 0 ≤ x then b ^ x.toNat else 1 := by
  rcases le_total 0 x with hx | hx
  · obtain ⟨n, rfl⟩ := Int.eq_ofNat_of_zero_le hx
    rcases Nat.eq_zero_or_pos n with rfl | hn
    · simp
    · rw [if_neg (by omega), if_pos hx, Int.toNat_natCast, zpow_natCast, mul_one]
  · obtain ⟨n, hn⟩ := Int.eq_ofNat_of_zero_le (a := -x) (by omega)
    obtain rfl : x = -n := by omega
    rcases Nat.eq_zero_or_pos n with rfl | hn'
    · simp
    · rw [if_pos (by omega), if_neg (by omega), hn, Int.toNat_natCast, zpow_neg, zpow_natCast,
        inv_mul_cancel₀ (pow_ne_zero n hb)]

/-- **The test is whether the decimal is in the interval.** -/
lemma readsBack_iff {m : ℕ} {k : ℤ} :
    readsBack c e m k = true ↔ RoundsTo (m * 10 ^ k) c e := by
  let two (x : ℤ) : ℕ := if 0 ≤ x then twoPow x.toNat else 1
  let ten (x : ℤ) : ℕ := if 0 ≤ x then tenPow x.toNat else 1
  have two_cast (x : ℤ) : (two x : ℚ) = if 0 ≤ x then 2 ^ x.toNat else 1 := by
    simp only [two]
    split <;> simp [twoPow]
  have ten_cast (x : ℤ) : (ten x : ℚ) = if 0 ≤ x then 10 ^ x.toNat else 1 := by
    simp only [ten]
    split <;> simp [tenPow]
  have two_cleared : (2 : ℚ) ^ e * two (-e) = two e := by
    rw [two_cast, two_cast, zpow_mul_cleared two_ne_zero]
  have ten_cleared : (10 : ℚ) ^ k * ten (-k) = ten k := by
    rw [ten_cast, ten_cast, zpow_mul_cleared (by norm_num)]
  have hpos : (0 : ℚ) < two (-e) * ten (-k) := by
    rw [two_cast, ten_cast]
    positivity
  have point : ((4 * m * ten k * two (-e) : ℕ) : ℚ) =
      4 * (m * 10 ^ k) * (two (-e) * ten (-k)) := by
    push_cast
    rw [← ten_cleared]
    ring
  have unit (low : ℕ) : ((low * (two e * ten (-k)) : ℕ) : ℚ) =
      low * 2 ^ e * (two (-e) * ten (-k)) := by
    push_cast
    rw [← two_cleared]
    ring
  have le_point (low : ℕ) : low * (two e * ten (-k)) ≤ 4 * m * ten k * two (-e) ↔
      low * (2 : ℚ) ^ e ≤ 4 * (m * 10 ^ k) := by
    rw [← Nat.cast_le (α := ℚ), point, unit]
    exact mul_le_mul_iff_left₀ hpos
  have point_le (high : ℕ) : 4 * m * ten k * two (-e) ≤ high * (two e * ten (-k)) ↔
      4 * (m * 10 ^ k) ≤ high * (2 : ℚ) ^ e := by
    rw [← Nat.cast_le (α := ℚ), point, unit]
    exact mul_le_mul_iff_left₀ hpos
  change (if c % 2 = 0 then
      decide ((roundingInterval c e).1 * (two e * ten (-k)) ≤ 4 * m * ten k * two (-e)) &&
        decide (4 * m * ten k * two (-e) ≤ (roundingInterval c e).2 * (two e * ten (-k)))
    else decide ((roundingInterval c e).1 * (two e * ten (-k)) < 4 * m * ten k * two (-e)) &&
        decide (4 * m * ten k * two (-e) < (roundingInterval c e).2 * (two e * ten (-k)))) =
      true ↔ _
  split
  · rename_i heven
    rw [Bool.and_eq_true, decide_eq_true_eq, decide_eq_true_eq, le_point, point_le]
    exact ⟨fun h => ⟨h.1, h.2, fun _ => heven⟩, fun h => ⟨h.above, h.below⟩⟩
  · rename_i hodd
    rw [Bool.and_eq_true, decide_eq_true_eq, decide_eq_true_eq, ← not_le, ← not_le, point_le,
      le_point, not_le, not_le]
    constructor
    · rintro ⟨h, h'⟩
      exact ⟨h.le, h'.le, fun hend => absurd hend (not_or.2 ⟨h.ne, h'.ne⟩)⟩
    · intro h
      have hend := mt h.even hodd
      exact ⟨h.above.lt_of_ne fun heq => hend (.inl heq),
        h.below.lt_of_ne fun heq => hend (.inr heq)⟩

/-! ## The decimals next to a value -/

lemma overPowerOfTen_spec {num den : ℕ} (hden : 0 < den) (k : ℤ) :
    0 < (overPowerOfTen num den k).2 ∧
      ((overPowerOfTen num den k).1 : ℚ) / (overPowerOfTen num den k).2 = num / den / 10 ^ k := by
  unfold overPowerOfTen
  split
  · rename_i hpos
    obtain ⟨n, rfl⟩ := Int.eq_ofNat_of_zero_le hpos
    refine ⟨Nat.mul_pos hden (Nat.pow_pos (by decide)), ?_⟩
    rw [Int.toNat_natCast, Nat.cast_mul, tenPow_cast, zpow_natCast, div_div]
  · rename_i hneg
    obtain ⟨n, hn⟩ := Int.eq_ofNat_of_zero_le (a := -k) (by omega)
    obtain rfl : k = -n := by omega
    refine ⟨hden, ?_⟩
    rw [hn, Int.toNat_natCast, Nat.cast_mul, tenPow_cast, zpow_neg, zpow_natCast]
    field_simp

/-- What is taken is next to the value and in its interval. -/
lemma roundsTo_of_nearest? {num den n : ℕ} {magnitude : ℤ} {x : Decimal}
    (h : nearest? c e num den magnitude n = some x) : RoundsTo x.value c e := by
  unfold nearest? at h
  extract_lets k at h
  split at h
  rename_i num' den' _
  extract_lets lower remainder at h
  split at h
  · rename_i hlower hupper
    split at h <;> cases h
    · exact readsBack_iff.1 hlower
    · exact readsBack_iff.1 hupper
  · rename_i hlower _
    cases h
    exact readsBack_iff.1 hlower
  · rename_i _ hupper
    cases h
    exact readsBack_iff.1 hupper
  · cases h

/-- One of the two decimals is taken if one of them is in the interval. -/
lemma isSome_nearest? {num den n : ℕ} {magnitude : ℤ} :
    let scaled := overPowerOfTen num den (magnitude - n)
    readsBack c e (scaled.1 / scaled.2) (magnitude - n) = true ∨
      readsBack c e (scaled.1 / scaled.2 + 1) (magnitude - n) = true →
    (nearest? c e num den magnitude n).isSome = true := by
  intro scaled h
  unfold nearest?
  simp only
  split
  · split <;> rfl
  · rfl
  · rfl
  · simp_all [scaled]

/-- Zeros at the end make no difference. -/
lemma value_stripZeros (fuel : ℕ) (x : Decimal) : (stripZeros fuel x).value = x.value := by
  induction fuel generalizing x with
  | zero => rfl
  | succ fuel ih =>
      unfold stripZeros
      split
      · rename_i h
        have hdigits : (x.digits : ℚ) = (x.digits / 10 : ℕ) * 10 := by
          have : x.digits = x.digits / 10 * 10 := by omega
          exact_mod_cast this
        rw [ih, Decimal.value, Decimal.value, zpow_add_one₀ (by norm_num), hdigits]
        ring
      · rfl

/-! ## The place of the first digit -/

/-- Where the search for the place starts: `M / N` is so near to the logarithm of two that the start
is at most two places off. -/
lemma zpow_le_of_logarithm {N M : ℕ} (hN : N ≠ 0) (below : 2 ^ N ≤ 10 ^ M)
    (above : 10 ^ M ≤ 2 ^ (N + 1)) {b : ℤ} (hb : b ≤ N) : (10 : ℚ) ^ (b * M / N - 2) ≤ 2 ^ b := by
  have hten (k : ℤ) : (0 : ℚ) < 10 ^ k := zpow_pos (by norm_num) k
  have one_le_ten : (1 : ℚ) ≤ 10 := by norm_num
  -- it is enough to compare the `N`-th powers
  rw [← pow_le_pow_iff_left₀ (hten _).le (zpow_pos_two b).le hN, ← zpow_natCast, ← zpow_natCast,
    ← zpow_mul, ← zpow_mul]
  have hexponent : (b * M / N - 2) * (N : ℤ) ≤ b * M - N := by
    have := Int.ediv_mul_le (b * M) (show (N : ℤ) ≠ 0 by exact_mod_cast hN)
    rw [sub_mul]
    omega
  refine (zpow_le_zpow_right₀ one_le_ten hexponent).trans ?_
  rw [zpow_sub₀ (by norm_num), div_le_iff₀ (hten _)]
  rcases le_total 0 b with hpos | hneg
  · obtain ⟨n, rfl⟩ := Int.eq_ofNat_of_zero_le hpos
    have hn : n ≤ N := by exact_mod_cast hb
    have hpow : (10 ^ M) ^ n ≤ 2 ^ (n * N) * 10 ^ N := by
      calc (10 ^ M) ^ n ≤ (2 ^ (N + 1)) ^ n := Nat.pow_le_pow_left above n
        _ = 2 ^ (n * N) * 2 ^ n := by rw [← pow_mul, ← pow_add]; ring_nf
        _ ≤ 2 ^ (n * N) * 10 ^ N := Nat.mul_le_mul_left _
            ((Nat.pow_le_pow_left (by decide) n).trans (Nat.pow_le_pow_right (by decide) hn))
    rw [mul_comm, zpow_mul, zpow_natCast, zpow_natCast, zpow_natCast,
      show ((n : ℤ) * N) = ((n * N : ℕ) : ℤ) from by push_cast; rfl, zpow_natCast]
    exact_mod_cast hpow
  · obtain ⟨n, hn⟩ := Int.eq_ofNat_of_zero_le (a := -b) (by omega)
    obtain rfl : b = -n := by omega
    have hpow : (2 : ℚ) ^ (n * N) ≤ 10 ^ (n * M) := by
      rw [mul_comm n N, mul_comm n M, pow_mul, pow_mul]
      exact_mod_cast Nat.pow_le_pow_left below n
    have hinv : (10 : ℚ) ^ (-(n : ℤ) * M) ≤ 2 ^ (-(n : ℤ) * N) := by
      rw [show -(n : ℤ) * M = -((n * M : ℕ) : ℤ) from by push_cast; ring,
        show -(n : ℤ) * N = -((n * N : ℕ) : ℤ) from by push_cast; ring, zpow_neg, zpow_neg,
        zpow_natCast, zpow_natCast]
      exact inv_anti₀ (by positivity) hpow
    refine hinv.trans (le_mul_of_one_le_right (zpow_pos_two _).le ?_)
    rw [zpow_natCast]
    exact one_le_pow₀ one_le_ten

/-- The place moves to the right only past values that are still too small. -/
lemma decimalMagnitude_le {num den : ℕ} (hden : 0 < den) (fuel : ℕ) {k : ℤ}
    (h : (10 : ℚ) ^ (k - 1) ≤ num / den) :
    (10 : ℚ) ^ (decimalMagnitude num den fuel k - 1) ≤ num / den := by
  induction fuel generalizing k with
  | zero => exact h
  | succ fuel ih =>
      obtain ⟨hscaled, hvalue⟩ := @overPowerOfTen_spec num den hden k
      simp only [decimalMagnitude]
      split
      · exact h
      · rename_i hreaches
        refine ih ?_
        have hone : (1 : ℚ) ≤ num / den / 10 ^ k := by
          rw [← hvalue, one_le_div (by exact_mod_cast hscaled)]
          exact_mod_cast not_lt.1 hreaches
        rw [add_sub_cancel_right]
        exact (one_le_div₀ (zpow_pos (by norm_num) k)).1 hone

/-- **The first digit is not placed too far to the left.** -/
lemma zpow_le_of_magnitude {num den : ℕ} (hnum : 0 < num) (hden : 0 < den)
    (hsmall : (num / den : ℚ) ≤ 2 ^ (1024 : ℤ)) (fuel : ℕ) :
    (10 : ℚ) ^ (decimalMagnitude num den fuel (binaryExponent num den * 30103 / 100000 - 1) - 1) ≤
      num / den := by
  obtain ⟨hleast, _⟩ := binaryExponent_spec hnum hden
  have hexponent : binaryExponent num den ≤ 1024 :=
    (zpow_le_zpow_iff_right₀ one_lt_two).1 (hleast.trans hsmall)
  have below : 2 ^ 100000 ≤ 10 ^ 30103 := by decide +kernel
  have above : 10 ^ 30103 ≤ 2 ^ (100000 + 1) := by decide +kernel
  refine decimalMagnitude_le hden fuel (le_trans ?_ hleast)
  rw [sub_sub]
  exact zpow_le_of_logarithm (by decide) below above (by omega)

/-! ## Seventeen digits -/

lemma RoundsTo.of_lt {r : ℚ} (above : (roundingInterval c e).1 * (2 : ℚ) ^ e < 4 * r)
    (below : 4 * r < (roundingInterval c e).2 * (2 : ℚ) ^ e) : RoundsTo r c e :=
  ⟨above.le, below.le, fun hend => (hend.elim above.ne below.ne).elim⟩

/-- A positive value is in its own interval. -/
lemma RoundsTo.self (hc : 0 < c) : RoundsTo (c * 2 ^ e) c e := by
  have hunit : (0 : ℚ) < 2 ^ e := zpow_pos_two e
  have hbelow : 4 * (c * 2 ^ e) < ((roundingInterval c e).2 : ℚ) * 2 ^ e := by
    rw [roundingInterval_snd]
    push_cast
    linarith
  obtain ⟨_, _, hfst⟩ | ⟨rfl, _⟩ | ⟨_, hfst⟩ := roundingInterval_fst_cases c e
  · exact .of_lt (by rw [hfst]; linarith) hbelow
  · exact absurd hc (lt_irrefl 0)
  · exact .of_lt (by rw [hfst]; linarith) hbelow

/-- **One of two neighbouring multiples is in the interval** if the multiples are as near to each
other as decimals of 17 digits. -/
lemma roundsTo_or_roundsTo {negative : Bool} {q : ℕ} {u : ℚ} (hc : 0 < c)
    (hcanonical : IsCanonical (.finite negative c e)) (hu : u * 10 ^ 16 ≤ c * 2 ^ e)
    (hlower : q * u ≤ c * 2 ^ e) (hupper : c * 2 ^ e < (q + 1) * u) :
    RoundsTo (q * u) c e ∨ RoundsTo ((q + 1) * u) c e := by
  have hunit : (0 : ℚ) < 2 ^ e := zpow_pos_two e
  obtain ⟨_, _, hfst⟩ | ⟨rfl, _⟩ | ⟨_, hfst⟩ := roundingInterval_fst_cases c e
  · -- the neighbour below is nearer, so the multiple above is taken
    subst c
    refine .inr (.of_lt ?_ ?_)
    · rw [hfst]
      linarith
    · rw [roundingInterval_snd]
      push_cast at hu hlower ⊢
      linarith
  · exact absurd hc (lt_irrefl 0)
  · -- the nearer one of both is taken
    have hcoefficient : (c : ℚ) * 2 ^ e < 2 ^ 53 * 2 ^ e :=
      mul_lt_mul_of_pos_right (by exact_mod_cast hcanonical.1.coefficient) hunit
    rcases le_total (c * 2 ^ e - q * u) ((q + 1) * u - c * 2 ^ e) with h | h
    · refine .inl (.of_lt ?_ ?_)
      · rw [hfst]
        linarith
      · rw [roundingInterval_snd]
        push_cast
        linarith
    · refine .inr (.of_lt ?_ ?_)
      · rw [hfst]
        linarith
      · rw [roundingInterval_snd]
        push_cast
        linarith

/-- With 17 digits, one of the two decimals next to a value reads back. -/
lemma readsBack_seventeen {negative : Bool} {num den : ℕ} {magnitude : ℤ} (hc : 0 < c)
    (hcanonical : IsCanonical (.finite negative c e)) (hden : 0 < den)
    (hvalue : (num / den : ℚ) = c * 2 ^ e) (hplace : (10 : ℚ) ^ (magnitude - 1) ≤ num / den) :
    let scaled := overPowerOfTen num den (magnitude - 17)
    readsBack c e (scaled.1 / scaled.2) (magnitude - 17) = true ∨
      readsBack c e (scaled.1 / scaled.2 + 1) (magnitude - 17) = true := by
  intro scaled
  have hpow : (0 : ℚ) < 10 ^ (magnitude - 17) := zpow_pos (by norm_num) _
  obtain ⟨_, hscaled⟩ := @overPowerOfTen_spec num den hden (magnitude - 17)
  have hfloor : ⌊(c * 2 ^ e / 10 ^ (magnitude - 17) : ℚ)⌋₊ = scaled.1 / scaled.2 := by
    rw [← hvalue, ← hscaled, Nat.floor_div_eq_div]
  have hnonneg : (0 : ℚ) ≤ c * 2 ^ e / 10 ^ (magnitude - 17) :=
    div_nonneg (mul_nonneg (Nat.cast_nonneg c) (zpow_pos_two e).le) hpow.le
  rw [readsBack_iff, readsBack_iff, Nat.cast_add_one, ← hfloor]
  refine roundsTo_or_roundsTo hc hcanonical ?_ ?_ ?_
  · rw [← hvalue]
    refine le_trans (le_of_eq ?_) hplace
    rw [← zpow_natCast, ← zpow_add₀ (by norm_num)]
    congr 1
    push_cast
    ring
  · exact (le_div_iff₀ hpow).1 (Nat.floor_le hnonneg)
  · exact (div_lt_iff₀ hpow).1 (Nat.lt_floor_add_one _)

/-! ## The search -/

/-- The value as the quotient of two naturals. -/
lemma exists_fraction (hc : 0 < c) :
    ∃ num den : ℕ,
      (if 0 ≤ e then (c * twoPow e.toNat, 1) else (c, twoPow (-e).toNat)) = (num, den) ∧
        0 < num ∧ 0 < den ∧ (num / den : ℚ) = c * 2 ^ e := by
  split
  · rename_i hpos
    obtain ⟨n, rfl⟩ := Int.eq_ofNat_of_zero_le hpos
    refine ⟨_, _, rfl, Nat.mul_pos hc (Nat.pow_pos (by decide)), one_pos, ?_⟩
    rw [Int.toNat_natCast, Nat.cast_mul, twoPow_cast, zpow_natCast, Nat.cast_one, div_one]
  · rename_i hneg
    obtain ⟨n, hn⟩ := Int.eq_ofNat_of_zero_le (a := -e) (by omega)
    obtain rfl : e = -n := by omega
    refine ⟨_, _, rfl, hc, Nat.pow_pos (by decide), ?_⟩
    rw [hn, Int.toNat_natCast, twoPow_cast, zpow_neg, zpow_natCast, div_eq_mul_inv]

/-- **What the search finds is in the interval of the value.** -/
theorem roundsTo_shortest {negative : Bool} (hc : 0 < c)
    (hcanonical : IsCanonical (.finite negative c e)) : RoundsTo (shortest c e).value c e := by
  obtain ⟨num, den, hfraction, hnum, hden, hvalue⟩ := exists_fraction (e := e) hc
  unfold shortest
  rw [hfraction]
  simp only
  have hsmall : (num / den : ℚ) ≤ 2 ^ (1024 : ℤ) := by
    rw [hvalue]
    exact (RoundsTo.bounds hc hcanonical (.self hc)).2
  have hplace := zpow_le_of_magnitude hnum hden hsmall 5
  split
  · rename_i x hfound
    obtain ⟨i, _, hx⟩ := List.exists_of_findSome?_eq_some hfound
    rw [value_stripZeros]
    exact roundsTo_of_nearest? hx
  · rename_i hnone
    have hsome := isSome_nearest? (readsBack_seventeen hc hcanonical hden hvalue hplace)
    rw [List.findSome?_eq_none_iff.1 hnone 16 (by decide)] at hsome
    cases hsome

end Binary64

end ContractDrift
