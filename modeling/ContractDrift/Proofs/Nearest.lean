import ContractDrift.Decimal.Shortest
import ContractDrift.Proofs.Rounding
import Mathlib.Tactic.FieldSimp
import Mathlib.Tactic.Linarith
import Mathlib.Tactic.LinearCombination

/-!
# The nearest value

Every value of the format is nearest to the rationals of an interval around it, and halfway between
two values the one with the even coefficient is taken.  The intervals do not meet, so a rational is
rounded to one value only, and rounding a quotient finds this one.

* `Binary64.IsNormal`, `Binary64.IsCanonical` — the one form of a value, as rounding gives it.
* `Binary64.RoundsTo` — the rational is in the interval of a value;
  **`Binary64.RoundsTo.unique`** — it is in no other one.
* `Binary64.binaryExponent_spec`, `Binary64.roundHalfEven_spec` — the two steps of rounding.
* **`Binary64.ofRatio_spec`** — the nearest value to a quotient is canonical and has the quotient in
  its interval; `Binary64.ofRatio_eq`, `Binary64.ofDecimal_eq` — so it is the only such value.
-/

namespace ContractDrift

namespace Binary64

/-! ## The one form of a value -/

/-- A coefficient and an exponent in the form that rounding gives them: no digit of the coefficient
is left unused, unless the exponent is the least one. -/
structure IsNormal (c : ℕ) (e : ℤ) : Prop where
  coefficient : c < 2 ^ 53
  least : leastExponent ≤ e
  full : 2 ^ 52 ≤ c ∨ e = leastExponent

/-- A finite value of the format in its one form. -/
def IsCanonical : Binary64 → Prop
  | .finite _ c e => IsNormal c e ∧ e ≤ greatestExponent
  | _ => False

lemma isFinite_of_isCanonical {x : Binary64} (h : x.IsCanonical) : x.isFinite = true := by
  cases x with
  | finite negative c e => rfl
  | _ => exact h.elim

/-! ## Intervals -/

/-- The rational is at least as near to a value as to any other one.  The ends of the interval are
halfway to the neighbours, and belong to the value with the even coefficient. -/
structure RoundsTo (r : ℚ) (c : ℕ) (e : ℤ) : Prop where
  above : (roundingInterval c e).1 * (2 : ℚ) ^ e ≤ 4 * r
  below : 4 * r ≤ (roundingInterval c e).2 * (2 : ℚ) ^ e
  even : (roundingInterval c e).1 * (2 : ℚ) ^ e = 4 * r ∨
    4 * r = (roundingInterval c e).2 * (2 : ℚ) ^ e → c % 2 = 0

variable {r : ℚ} {c c' : ℕ} {e e' : ℤ}

@[simp] lemma roundingInterval_snd (c : ℕ) (e : ℤ) : (roundingInterval c e).2 = 4 * c + 2 := by
  unfold roundingInterval
  split <;> rfl

lemma le_roundingInterval_fst (c : ℕ) (e : ℤ) : 4 * c ≤ (roundingInterval c e).1 + 2 := by
  unfold roundingInterval
  split <;> simp only <;> omega

/-- The neighbour below the least coefficient of an exponent is nearer. -/
lemma roundingInterval_fst_of_least (h : leastExponent < e) :
    (roundingInterval (2 ^ 52) e).1 = 4 * 2 ^ 52 - 1 := by
  rw [roundingInterval, if_pos ⟨rfl, h⟩]

/-- The lower end is halfway to the neighbour below, of which zero has none. -/
lemma roundingInterval_fst_cases (c : ℕ) (e : ℤ) :
    (c = 2 ^ 52 ∧ leastExponent < e ∧ ((roundingInterval c e).1 : ℚ) = 4 * c - 1) ∨
    (c = 0 ∧ (roundingInterval c e).1 = 0) ∨
    0 < c ∧ ((roundingInterval c e).1 : ℚ) = 4 * c - 2 := by
  unfold roundingInterval
  split
  · rename_i h
    refine .inl ⟨h.1, h.2, ?_⟩
    rw [h.1]
    norm_num [twoPow]
  · rcases Nat.eq_zero_or_pos c with rfl | hc
    · exact .inr (.inl ⟨rfl, rfl⟩)
    · refine .inr (.inr ⟨hc, ?_⟩)
      rw [Nat.cast_sub (by omega)]
      push_cast
      ring

lemma twoPow_cast (n : ℕ) : ((twoPow n : ℕ) : ℚ) = 2 ^ n := Nat.cast_pow 2 n

lemma tenPow_cast (n : ℕ) : ((tenPow n : ℕ) : ℚ) = 10 ^ n := Nat.cast_pow 10 n

lemma zpow_pos_two (e : ℤ) : (0 : ℚ) < 2 ^ e := zpow_pos two_pos e

/-- No rational is in the intervals of two values. -/
lemma RoundsTo.false_of_lt (hn : IsNormal c e) (hn' : IsNormal c' e')
    (hlt : e < e' ∨ e = e' ∧ c < c') (h : RoundsTo r c e) (h' : RoundsTo r c' e') : False := by
  have hu := zpow_pos_two e
  have hbelow := h.below
  have habove := h'.above
  rw [roundingInterval_snd] at hbelow
  push_cast at hbelow
  have hlow : (4 * c' : ℚ) ≤ (roundingInterval c' e').1 + 2 := by
    exact_mod_cast le_roundingInterval_fst c' e'
  rcases hlt with hlt | ⟨rfl, hlt⟩
  · -- the greatest coefficient below and the least one above, of which the former is odd
    have hfull : 2 ^ 52 ≤ c' := hn'.full.resolve_right (by have := hn.least; omega)
    have hleast : (2 ^ 54 - 1 : ℚ) ≤ (roundingInterval c' e').1 := by
      rcases hfull.eq_or_lt with rfl | hfull
      · rw [roundingInterval_fst_of_least (hn.least.trans_lt hlt)]
        norm_num
      · have : (2 ^ 52 + 1 : ℚ) ≤ c' := by exact_mod_cast hfull
        linarith
    have hdouble : 2 * (2 : ℚ) ^ e ≤ 2 ^ e' := by
      rw [mul_comm, ← zpow_add_one₀ two_ne_zero]
      exact zpow_le_zpow_right₀ one_le_two hlt
    have hfar : (2 ^ 54 - 1 : ℚ) * (2 * 2 ^ e) ≤ 4 * r :=
      (mul_le_mul hleast hdouble (by positivity) (by linarith)).trans habove
    have hgreatest : (2 ^ 53 - 1 : ℚ) ≤ c := by
      have : (2 ^ 54 - 1 : ℚ) * 2 * 2 ^ e ≤ (4 * c + 2) * 2 ^ e := by linarith
      have := le_of_mul_le_mul_right this hu
      linarith
    obtain rfl : c = 2 ^ 53 - 1 := by
      have : 2 ^ 53 ≤ c + 1 := by exact_mod_cast sub_le_iff_le_add.1 hgreatest
      have := hn.coefficient
      omega
    have hend := h.even (.inr ?_)
    · exact absurd hend (by decide)
    · rw [roundingInterval_snd]
      push_cast at hbelow ⊢
      linarith
  · -- neighbours, of which one is odd
    have hnext : c' ≤ c + 1 := by
      have : ((roundingInterval c' e).1 : ℚ) ≤ 4 * c + 2 :=
        le_of_mul_le_mul_right (habove.trans hbelow) hu
      have : (c' : ℚ) ≤ c + 1 := by linarith
      exact_mod_cast this
    obtain rfl : c' = c + 1 := by omega
    push_cast at hlow
    have hmeet : (4 * c + 2) * (2 : ℚ) ^ e ≤ (roundingInterval (c + 1) e).1 * 2 ^ e :=
      mul_le_mul_of_nonneg_right (by linarith) hu.le
    have hend := h.even (.inr ?_)
    · have hend' := h'.even (.inl ?_)
      · omega
      · linarith
    · rw [roundingInterval_snd]
      push_cast
      linarith

/-- **A rational is rounded to one value.** -/
theorem RoundsTo.unique (hn : IsNormal c e) (hn' : IsNormal c' e') (h : RoundsTo r c e)
    (h' : RoundsTo r c' e') : c = c' ∧ e = e' := by
  rcases lt_trichotomy e e' with hlt | rfl | hlt
  · exact (RoundsTo.false_of_lt hn hn' (.inl hlt) h h').elim
  · rcases lt_trichotomy c c' with hlt | rfl | hlt
    · exact (RoundsTo.false_of_lt hn hn' (.inr ⟨rfl, hlt⟩) h h').elim
    · exact ⟨rfl, rfl⟩
    · exact (RoundsTo.false_of_lt hn' hn (.inr ⟨rfl, hlt⟩) h' h).elim
  · exact (RoundsTo.false_of_lt hn' hn (.inl hlt) h' h).elim

/-! ## The steps of rounding -/

/-- Comparing a quotient with a power of two, cleared of the denominator. -/
lemma zpow_le_div_iff {num den : ℕ} (hden : 0 < den) (k : ℤ) :
    (if 0 ≤ k then decide (den * twoPow k.toNat ≤ num)
      else decide (den ≤ num * twoPow (-k).toNat)) = true ↔ (2 : ℚ) ^ k ≤ num / den := by
  have hden' : (0 : ℚ) < den := by exact_mod_cast hden
  rw [le_div_iff₀ hden']
  split
  · rename_i hpos
    obtain ⟨n, rfl⟩ := Int.eq_ofNat_of_zero_le hpos
    rw [decide_eq_true_eq, Int.toNat_natCast, zpow_natCast, mul_comm, ← twoPow_cast]
    exact_mod_cast Iff.rfl
  · rename_i hneg
    obtain ⟨n, hn⟩ := Int.eq_ofNat_of_zero_le (a := -k) (by omega)
    obtain rfl : k = -n := by omega
    rw [decide_eq_true_eq, hn, Int.toNat_natCast, zpow_neg, zpow_natCast,
      inv_mul_le_iff₀ (by positivity), mul_comm ((2 : ℚ) ^ n), ← twoPow_cast]
    exact_mod_cast Iff.rfl

/-- **The exponent of the leading digit.** -/
lemma binaryExponent_spec {num den : ℕ} (hnum : 0 < num) (hden : 0 < den) :
    (2 : ℚ) ^ binaryExponent num den ≤ num / den ∧
      (num / den : ℚ) < 2 ^ (binaryExponent num den + 1) := by
  have hden' : (0 : ℚ) < den := by exact_mod_cast hden
  have numLeast : (2 : ℚ) ^ (num.log2 : ℤ) ≤ num := by
    exact_mod_cast Nat.log2_self_le hnum.ne'
  have numGreatest : (num : ℚ) < 2 ^ ((num.log2 : ℤ) + 1) := by
    exact_mod_cast Nat.lt_log2_self (n := num)
  have denLeast : (2 : ℚ) ^ (den.log2 : ℤ) ≤ den := by
    exact_mod_cast Nat.log2_self_le hden.ne'
  have denGreatest : (den : ℚ) < 2 ^ ((den.log2 : ℤ) + 1) := by
    exact_mod_cast Nat.lt_log2_self (n := den)
  let k : ℤ := num.log2 - den.log2
  have hnumber : (num.log2 : ℤ) = k + den.log2 := by omega
  have low : (2 : ℚ) ^ (k - 1) ≤ num / den := by
    rw [le_div_iff₀ hden']
    calc (2 : ℚ) ^ (k - 1) * den ≤ 2 ^ (k - 1) * 2 ^ ((den.log2 : ℤ) + 1) :=
          mul_le_mul_of_nonneg_left denGreatest.le (zpow_pos_two _).le
      _ = 2 ^ (num.log2 : ℤ) := by
          rw [← zpow_add₀ two_ne_zero, hnumber]
          ring_nf
      _ ≤ num := numLeast
  have high : (num / den : ℚ) < 2 ^ (k + 1) := by
    rw [div_lt_iff₀ hden']
    calc (num : ℚ) < 2 ^ ((num.log2 : ℤ) + 1) := numGreatest
      _ = 2 ^ (k + 1) * 2 ^ (den.log2 : ℤ) := by
          rw [← zpow_add₀ two_ne_zero, hnumber]
          ring_nf
      _ ≤ 2 ^ (k + 1) * den := mul_le_mul_of_nonneg_left denLeast (zpow_pos_two _).le
  have hexponent : binaryExponent num den =
      if (2 : ℚ) ^ k ≤ num / den then k else k - 1 :=
    if_congr (zpow_le_div_iff hden k) rfl rfl
  rw [hexponent]
  split
  · exact ⟨‹_›, high⟩
  · rw [sub_add_cancel]
    exact ⟨low, not_le.1 ‹_›⟩

/-- **A quotient is rounded to a natural at most a half away**, and from halfway to an even one. -/
lemma roundHalfEven_spec {num den : ℕ} (hden : 0 < den) :
    2 * roundHalfEven num den * den ≤ 2 * num + den ∧
    2 * num ≤ 2 * roundHalfEven num den * den + den ∧
    (2 * roundHalfEven num den * den = 2 * num + den ∨
      2 * num = 2 * roundHalfEven num den * den + den → roundHalfEven num den % 2 = 0) := by
  have hdivision : num = num / den * den + num % den := (Nat.div_add_mod' num den).symm
  have hremainder : num % den < den := Nat.mod_lt num hden
  unfold roundHalfEven
  extract_lets q twice
  have htwice : twice = 2 * (num % den) := rfl
  have hquotient : num = q * den + num % den := hdivision
  have hnext : (q + 1) * den = q * den + den := Nat.succ_mul q den
  split
  · have : 2 * q * den = 2 * (q * den) := mul_assoc 2 q den
    omega
  · split
    · have : 2 * (q + 1) * den = 2 * ((q + 1) * den) := mul_assoc 2 (q + 1) den
      omega
    · rcases Nat.mod_two_eq_zero_or_one q with hq | hq
      · rw [hq, Nat.add_zero]
        have : 2 * q * den = 2 * (q * den) := mul_assoc 2 q den
        omega
      · rw [hq]
        have : 2 * (q + 1) * den = 2 * ((q + 1) * den) := mul_assoc 2 (q + 1) den
        omega

/-- The coefficient at an exponent: a quotient is rounded to a multiple of a power of two. -/
lemma roundHalfEven_scaled {num den q : ℕ} {e : ℤ} (hden : 0 < den)
    (hq : q = if 0 ≤ e then roundHalfEven num (den * twoPow e.toNat)
      else roundHalfEven (num * twoPow (-e).toNat) den) :
    (2 * q - 1) * (2 : ℚ) ^ e ≤ 2 * (num / den) ∧
    2 * (num / den) ≤ (2 * q + 1) * (2 : ℚ) ^ e ∧
    ((2 * q - 1) * (2 : ℚ) ^ e = 2 * (num / den) ∨
      2 * (num / den) = (2 * q + 1) * (2 : ℚ) ^ e → q % 2 = 0) := by
  obtain ⟨n, d, hd, hratio, hq⟩ : ∃ n d : ℕ, 0 < d ∧ (num / den : ℚ) = n / d * 2 ^ e ∧
      q = roundHalfEven n d := by
    split at hq
    · rename_i hpos
      obtain ⟨k, rfl⟩ := Int.eq_ofNat_of_zero_le hpos
      refine ⟨num, den * twoPow k, Nat.mul_pos hden (Nat.two_pow_pos k), ?_, hq⟩
      rw [zpow_natCast, Nat.cast_mul, twoPow_cast]
      field_simp
    · rename_i hneg
      obtain ⟨k, hk⟩ := Int.eq_ofNat_of_zero_le (a := -e) (by omega)
      obtain rfl : e = -k := by omega
      rw [hk, Int.toNat_natCast] at hq
      refine ⟨num * twoPow k, den, hden, ?_, hq⟩
      rw [zpow_neg, zpow_natCast, Nat.cast_mul, twoPow_cast]
      field_simp
  obtain ⟨above, below, even⟩ := @roundHalfEven_spec n d hd
  rw [← hq] at above below even
  have hu := zpow_pos_two e
  have hd' : (0 : ℚ) < d := by exact_mod_cast hd
  have hn : (n : ℚ) = n / d * d := (div_mul_cancel₀ _ hd'.ne').symm
  rw [hratio]
  generalize (n / d : ℚ) = s at hn
  have above' : (2 * q - 1 : ℚ) ≤ 2 * s := by
    have : (2 * q * d : ℚ) ≤ 2 * n + d := by exact_mod_cast above
    refine le_of_mul_le_mul_right ?_ hd'
    linarith
  have below' : 2 * s ≤ (2 * q + 1 : ℚ) := by
    have : (2 * n : ℚ) ≤ 2 * q * d + d := by exact_mod_cast below
    refine le_of_mul_le_mul_right ?_ hd'
    linarith
  refine ⟨?_, ?_, fun h => even (h.imp (fun h => ?_) fun h => ?_)⟩
  · rw [← mul_assoc]
    exact mul_le_mul_of_nonneg_right above' hu.le
  · rw [← mul_assoc]
    exact mul_le_mul_of_nonneg_right below' hu.le
  · rw [← mul_assoc] at h
    have hs := mul_right_cancel₀ hu.ne' h
    have : (2 * q * d : ℚ) = 2 * n + d := by
      rw [hn]
      linear_combination d * hs
    exact_mod_cast this
  · rw [← mul_assoc] at h
    have hs := mul_right_cancel₀ hu.ne' h
    have : (2 * n : ℚ) = 2 * q * d + d := by
      rw [hn]
      linear_combination d * hs
    exact_mod_cast this

/-! ## Rounding a quotient -/

/-- **The nearest value to a quotient**: it is in the one form of a value, and has the quotient in
its interval.  Beyond the greatest exponent it is infinite. -/
theorem ofRatio_spec (negative : Bool) {num den : ℕ} (hnum : 0 < num) (hden : 0 < den) :
    ∃ c e, IsNormal c e ∧ RoundsTo (num / den) c e ∧ ofRatio negative num den =
      if greatestExponent < e then .infinite negative else .finite negative c e := by
  obtain ⟨least, greatest⟩ := binaryExponent_spec hnum hden
  rw [ofRatio, if_neg hnum.ne']
  generalize binaryExponent num den = b at least greatest
  extract_lets exponent coefficient
  obtain ⟨above, below, even⟩ := roundHalfEven_scaled hden (show coefficient = _ from rfl)
  have hexponent : b - 52 ≤ exponent := le_max_left _ _
  have hleast : leastExponent ≤ exponent := le_max_right _ _
  have hcases : exponent = b - 52 ∨ exponent = leastExponent := max_choice _ _
  have hr : (0 : ℚ) ≤ num / den := by positivity
  clear_value coefficient exponent
  generalize (num / den : ℚ) = r at *
  have hu := zpow_pos_two exponent
  have hbound : coefficient ≤ 2 ^ 53 := by
    have hpow : (2 : ℚ) ^ (b + 1) ≤ 2 ^ 53 * 2 ^ exponent := by
      rw [← zpow_natCast, ← zpow_add₀ two_ne_zero]
      exact zpow_le_zpow_right₀ one_le_two (by omega)
    have hlt : (2 * coefficient - 1) * (2 : ℚ) ^ exponent < 2 ^ 54 * 2 ^ exponent := by
      linarith
    have := lt_of_mul_lt_mul_right hlt hu.le
    have : (2 * coefficient : ℚ) < 2 ^ 54 + 1 := by linarith
    have : 2 * coefficient < 2 ^ 54 + 1 := by exact_mod_cast this
    omega
  have hfull : exponent = b - 52 → 2 ^ 52 * (2 : ℚ) ^ exponent ≤ r := by
    rintro rfl
    rw [← zpow_natCast, ← zpow_add₀ two_ne_zero]
    simpa using least
  by_cases hcarry : coefficient = 2 ^ 53
  · -- the next power of two
    refine ⟨2 ^ 52, exponent + 1, ⟨by decide, by omega, .inl le_rfl⟩, ⟨?_, ?_, fun _ => by decide⟩,
      ?_⟩
    · rw [roundingInterval_fst_of_least (by omega), zpow_add_one₀ two_ne_zero]
      rw [hcarry] at above
      norm_num at above ⊢
      linarith
    · rw [roundingInterval_snd, zpow_add_one₀ two_ne_zero]
      rw [hcarry] at below
      norm_num at below ⊢
      linarith
    · simp [hcarry, twoPow]
  · have hcases' := roundingInterval_fst_cases coefficient exponent
    refine ⟨coefficient, exponent, ⟨by omega, hleast, ?_⟩, ⟨?_, ?_, ?_⟩, ?_⟩
    · refine hcases.imp_left fun h => ?_
      have hlt : 2 ^ 53 * (2 : ℚ) ^ exponent ≤ (2 * coefficient + 1) * 2 ^ exponent := by
        linarith [hfull h]
      have hlt := le_of_mul_le_mul_right hlt hu
      have : 2 ^ 53 ≤ 2 * coefficient + 1 := by exact_mod_cast hlt
      omega
    · rcases hcases' with ⟨hc, he, hlow⟩ | ⟨hc, hlow⟩ | ⟨_, hlow⟩
      · have hnear := hfull (hcases.resolve_right (by omega))
        rw [hlow, hc]
        norm_num
        linarith
      · simpa [hlow] using hr
      · rw [hlow]
        linarith
    · rw [roundingInterval_snd]
      push_cast
      linarith
    · rintro (h | h)
      · rcases hcases' with ⟨hc, he, hlow⟩ | ⟨hc, hlow⟩ | ⟨_, hlow⟩
        · rw [hc]
          decide
        · rw [hc]
        · rw [hlow] at h
          exact even (.inl (by linarith))
      · rw [roundingInterval_snd] at h
        push_cast at h
        exact even (.inr (by linarith))
    · have hcarry' : coefficient ≠ twoPow 53 := hcarry
      simp [hcarry']

/-- **A quotient in the interval of a value has this value as its nearest one.** -/
theorem ofRatio_eq {negative : Bool} {num den c : ℕ} {e : ℤ} (hnum : 0 < num) (hden : 0 < den)
    (hcanonical : IsCanonical (.finite negative c e)) (h : RoundsTo (num / den) c e) :
    ofRatio negative num den = .finite negative c e := by
  obtain ⟨hn, hgreatest⟩ := hcanonical
  obtain ⟨c', e', hn', h', hratio⟩ := ofRatio_spec negative hnum hden
  obtain ⟨rfl, rfl⟩ := h.unique hn hn' h'
  rw [hratio, if_neg (not_lt.2 hgreatest)]

/-- What is rounded and finite is in the one form. -/
lemma isCanonical_ofRatio {negative : Bool} {num den : ℕ} (hden : 0 < den)
    (h : (ofRatio negative num den).isFinite = true) : (ofRatio negative num den).IsCanonical := by
  rcases Nat.eq_zero_or_pos num with rfl | hnum
  · exact ⟨⟨by decide, le_rfl, .inr rfl⟩, by decide⟩
  · obtain ⟨c, e, hn, _, hratio⟩ := ofRatio_spec negative hnum hden
    rw [hratio] at h ⊢
    split
    · rw [if_pos ‹_›] at h
      cases h
    · exact ⟨hn, not_lt.1 ‹_›⟩

/-! ## Rounding a decimal -/

lemma toDigits_bounds {m : ℕ} (hm : 0 < m) :
    (10 : ℚ) ^ ((Nat.toDigits 10 m).length - 1 : ℤ) ≤ m ∧
      (m : ℚ) < 10 ^ ((Nat.toDigits 10 m).length : ℤ) := by
  have hpos : 0 < (Nat.toDigits 10 m).length := Nat.length_toDigits_pos
  have hlength := @Nat.length_toDigits_le_iff 10 m
  generalize (Nat.toDigits 10 m).length = l at hpos hlength
  obtain ⟨l, rfl⟩ := Nat.exists_eq_succ_of_ne_zero hpos.ne'
  constructor
  · have hle : 10 ^ l ≤ m := by
      rcases Nat.eq_zero_or_pos l with rfl | hl
      · exact hm
      · have := hlength (k := l) (by decide) hl
        omega
    have hexp : ((l.succ : ℕ) - 1 : ℤ) = (l : ℕ) := by omega
    rw [hexp, zpow_natCast]
    exact_mod_cast hle
  · rw [zpow_natCast]
    exact_mod_cast (hlength (by decide) hpos).1 le_rfl

/-- A positive value is between the least and the greatest one, and so is what is rounded to it. -/
lemma RoundsTo.bounds (hc : 0 < c) {negative : Bool}
    (hcanonical : IsCanonical (.finite negative c e)) (h : RoundsTo r c e) :
    (2 : ℚ) ^ (-1075 : ℤ) ≤ r ∧ r ≤ 2 ^ (1024 : ℤ) := by
  obtain ⟨⟨hcoefficient, hleast, _⟩, hgreatest⟩ := hcanonical
  have above := h.above
  have below := h.below
  rw [roundingInterval_snd] at below
  push_cast at below
  constructor
  · have hlow : (2 : ℚ) ≤ (roundingInterval c e).1 := by
      have := le_roundingInterval_fst c e
      exact_mod_cast (by omega : 2 ≤ (roundingInterval c e).1)
    have hexp : (2 : ℚ) ^ (-1074 : ℤ) ≤ 2 ^ e := zpow_le_zpow_right₀ one_le_two hleast
    have hhalf : (2 : ℚ) ^ (-1075 : ℤ) * 2 = 2 ^ (-1074 : ℤ) := by
      rw [← zpow_add_one₀ two_ne_zero]
      rfl
    have hprod := mul_le_mul hlow hexp (zpow_pos_two _).le (by linarith)
    linarith
  · have hhigh : (c : ℚ) ≤ 2 ^ 53 - 1 := by
      have : c + 1 ≤ 2 ^ 53 := hcoefficient
      have : (c : ℚ) + 1 ≤ 2 ^ 53 := by exact_mod_cast this
      linarith
    have hexp : (2 : ℚ) ^ e ≤ 2 ^ (971 : ℤ) := zpow_le_zpow_right₀ one_le_two hgreatest
    have hpow : (2 : ℚ) ^ (1024 : ℤ) = 2 ^ 53 * 2 ^ (971 : ℤ) := by
      rw [← zpow_natCast, ← zpow_add₀ two_ne_zero]
      rfl
    have hprod : (4 * c + 2) * (2 : ℚ) ^ e ≤ (4 * 2 ^ 53) * 2 ^ (971 : ℤ) :=
      mul_le_mul (by linarith) hexp (zpow_pos_two _).le (by positivity)
    rw [hpow]
    generalize (2 : ℚ) ^ (971 : ℤ) = u at hprod
    linarith

lemma twoPow_lt_tenPow : (2 : ℚ) ^ (1024 : ℤ) < 10 ^ (400 : ℤ) := by
  have : 2 ^ 1024 < 10 ^ 400 := by decide +kernel
  exact_mod_cast this

lemma tenPow_lt_twoPow : (10 : ℚ) ^ (-401 : ℤ) < 2 ^ (-1075 : ℤ) := by
  have : 2 ^ 1075 < 10 ^ 401 := by decide +kernel
  rw [zpow_neg, zpow_neg]
  exact inv_strictAnti₀ (zpow_pos_two _) (by exact_mod_cast this)

/-- **A decimal in the interval of a value has this value as its nearest one.** -/
theorem ofDecimal_eq {negative : Bool} {m : ℕ} {k : ℤ} (hc : 0 < c)
    (hcanonical : IsCanonical (.finite negative c e)) (h : RoundsTo (m * 10 ^ k) c e) :
    ofDecimal negative m k = .finite negative c e := by
  obtain ⟨hleast, hgreatest⟩ := h.bounds hc hcanonical
  have hpow (k : ℤ) : (0 : ℚ) < 10 ^ k := zpow_pos (by norm_num) k
  have hm : 0 < m := by
    rcases Nat.eq_zero_or_pos m with rfl | hm
    · have := zpow_pos_two (-1075)
      simp only [Nat.cast_zero, zero_mul] at hleast
      linarith
    · exact hm
  obtain ⟨hlow, hhigh⟩ := toDigits_bounds hm
  have hmagnitude : -400 ≤ k + (Nat.toDigits 10 m).length ∧
      k + (Nat.toDigits 10 m).length ≤ 400 := by
    constructor
    · by_contra hsmall
      have : (m * 10 ^ k : ℚ) ≤ 10 ^ (-401 : ℤ) := by
        calc (m * 10 ^ k : ℚ) ≤ 10 ^ ((Nat.toDigits 10 m).length : ℤ) * 10 ^ k :=
              mul_le_mul_of_nonneg_right hhigh.le (hpow k).le
          _ = 10 ^ (((Nat.toDigits 10 m).length : ℤ) + k) := (zpow_add₀ (by norm_num) _ _).symm
          _ ≤ 10 ^ (-401 : ℤ) := zpow_le_zpow_right₀ (by norm_num) (by omega)
      exact absurd (hleast.trans this) (not_le.2 tenPow_lt_twoPow)
    · by_contra hlarge
      have : (10 : ℚ) ^ (400 : ℤ) ≤ m * 10 ^ k := by
        calc (10 : ℚ) ^ (400 : ℤ) ≤ 10 ^ ((Nat.toDigits 10 m).length - 1 + k : ℤ) :=
              zpow_le_zpow_right₀ (by norm_num) (by omega)
          _ = 10 ^ ((Nat.toDigits 10 m).length - 1 : ℤ) * 10 ^ k := zpow_add₀ (by norm_num) _ _
          _ ≤ m * 10 ^ k := mul_le_mul_of_nonneg_right hlow (hpow k).le
      exact absurd (this.trans hgreatest) (not_le.2 twoPow_lt_tenPow)
  unfold ofDecimal
  simp only
  rw [if_neg (by omega), if_neg (by omega)]
  split
  · rename_i hpos
    obtain ⟨n, rfl⟩ := Int.eq_ofNat_of_zero_le hpos
    refine ofRatio_eq (Nat.mul_pos hm (Nat.pow_pos (by decide))) one_pos hcanonical ?_
    rw [Int.toNat_natCast, Nat.cast_mul, tenPow_cast, Nat.cast_one, div_one]
    rwa [zpow_natCast] at h
  · rename_i hneg
    obtain ⟨n, hn⟩ := Int.eq_ofNat_of_zero_le (a := -k) (by omega)
    obtain rfl : k = -n := by omega
    rw [hn, Int.toNat_natCast]
    refine ofRatio_eq hm (Nat.pow_pos (by decide)) hcanonical ?_
    rw [tenPow_cast, div_eq_mul_inv]
    rwa [zpow_neg, zpow_natCast] at h

/-- What is read from a decimal and finite is in the one form. -/
lemma isCanonical_ofDecimal {negative : Bool} {m : ℕ} {k : ℤ}
    (h : (ofDecimal negative m k).isFinite = true) : (ofDecimal negative m k).IsCanonical := by
  unfold ofDecimal at h ⊢
  simp only at h ⊢
  split
  · exact ⟨⟨by decide, le_rfl, .inr rfl⟩, by decide⟩
  · rw [if_neg ‹_›] at h
    split
    · rw [if_pos ‹_›] at h
      cases h
    · rw [if_neg ‹_›] at h
      split
      · rw [if_pos ‹_›] at h
        exact isCanonical_ofRatio one_pos h
      · rw [if_neg ‹_›] at h
        exact isCanonical_ofRatio (Nat.pow_pos (by decide)) h

end Binary64

end ContractDrift
