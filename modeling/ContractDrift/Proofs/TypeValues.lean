import ContractDrift.Proofs.Widening
import Mathlib.Algebra.Order.Field.Power
import Mathlib.Data.Rat.Cast.Order
import Mathlib.Data.Set.Image
import Mathlib.Tactic.FieldSimp
import Mathlib.Tactic.NormNum
import Mathlib.Tactic.Positivity

/-!
# The values of numeric types

A widening is meant to keep every value that is there.  For the types with exact values, which are
the integers, the decimals, the numbers and the arrays of such, it is held here against the sets of
values.

* `DataType.Value`, `DataType.values?` — the values, as sets of rationals and of lists.
* `decimals_subset_iff` — when one decimal type has all values of another one.
* `DataType.LosesDigits` — a new decimal type with fewer digits than places.  The digits in front of
  its point are counted by a subtraction that stops at zero, and so they say nothing about the
  places that it lacks right behind the point.
* **`DataType.values_subset_iff`** — a safe change keeps all values unless it loses digits so.
-/

namespace ContractDrift

/-- A value of a type with exact values. -/
inductive DataType.Value where
  | number (x : ℚ)
  | array (items : List DataType.Value)

/-! ## Numbers -/

/-- The integers from `-bound` on and below `bound`. -/
def integersBelow (bound : ℤ) : Set ℚ := {x | ∃ n : ℤ, -bound ≤ n ∧ n < bound ∧ x = n}

/-- The numbers with so many places behind the point and, if there is a limit, so many digits. -/
def decimals (digits : Option ℕ) (places : ℕ) : Set ℚ :=
  {x | ∃ n : ℤ, (∀ d ∈ digits, |n| < 10 ^ d) ∧ x = n / 10 ^ places}

lemma integersBelow_subset {a b : ℤ} (h : a ≤ b) : integersBelow a ⊆ integersBelow b := by
  rintro _ ⟨n, hlower, hupper, rfl⟩
  exact ⟨n, by omega, by omega, rfl⟩

/-- A number with some places, written with more of them. -/
lemma div_pow_eq_of_le (n : ℤ) {s t : ℕ} (h : s ≤ t) :
    (n : ℚ) / 10 ^ s = ((n * 10 ^ (t - s) : ℤ) : ℚ) / 10 ^ t := by
  have hpow : (10 : ℚ) ^ t = 10 ^ (t - s) * 10 ^ s := by
    rw [← pow_add, Nat.sub_add_cancel h]
  rw [hpow]
  push_cast
  field_simp

lemma abs_mul_pow_lt {n : ℤ} {d k e : ℕ} (hn : |n| < 10 ^ d) (h : d + k ≤ e) :
    |n * 10 ^ k| < 10 ^ e := by
  have hpos : (0 : ℤ) < 10 ^ k := by positivity
  calc |n * 10 ^ k| = |n| * 10 ^ k := by rw [abs_mul, abs_of_pos hpos]
    _ < 10 ^ d * 10 ^ k := Int.mul_lt_mul_of_pos_right hn hpos
    _ = 10 ^ (d + k) := (pow_add _ _ _).symm
    _ ≤ 10 ^ e := pow_le_pow_right₀ (by norm_num) h

/-- Without a limit on the digits only the places count. -/
lemma decimals_subset_of_unlimited (p : Option ℕ) {s t : ℕ} (h : s ≤ t) :
    decimals p s ⊆ decimals none t := by
  rintro _ ⟨n, _, rfl⟩
  exact ⟨n * 10 ^ (t - s), by simp, div_pow_eq_of_le n h⟩

/-- **Of two decimal types with limits the one with more places has all values of the other one**
exactly if its digits suffice at the same number of places; or there is zero only. -/
theorem decimals_subset_iff {p q s t : ℕ} (h : s ≤ t) :
    decimals (some p) s ⊆ decimals (some q) t ↔ p = 0 ∨ p + t ≤ q + s := by
  constructor
  · intro hsub
    by_contra hno
    obtain ⟨hp, hdigits⟩ := not_or.1 hno
    -- the number with a one in front and zeros after it has one digit too many
    have hmem : (((10 ^ (p - 1) : ℤ) : ℚ)) / 10 ^ s ∈ decimals (some p) s := by
      refine ⟨10 ^ (p - 1), ?_, rfl⟩
      simp only [Option.mem_some, forall_eq']
      rw [abs_of_pos (by positivity)]
      exact pow_lt_pow_right₀ (by norm_num) (by omega)
    obtain ⟨m, hm, heq⟩ := hsub hmem
    rw [div_pow_eq_of_le _ h, div_left_inj' (by positivity), Int.cast_inj, ← pow_add] at heq
    subst heq
    have hlt := hm q rfl
    rw [abs_of_pos (by positivity)] at hlt
    have hexp := (pow_lt_pow_iff_right₀ (by norm_num : (1 : ℤ) < 10)).1 hlt
    omega
  · rintro hdigits _ ⟨n, hn, rfl⟩
    refine ⟨n * 10 ^ (t - s), ?_, div_pow_eq_of_le n h⟩
    simp only [Option.mem_some, forall_eq'] at hn ⊢
    rcases hdigits with rfl | hdigits
    · obtain rfl : n = 0 := by simpa using hn
      simp
    · exact abs_mul_pow_lt hn (by omega)

namespace DataType

variable {t u : DataType}

/-! ## Types -/

/-- The values of a type of numbers. -/
def numbers? : DataType → Option (Set ℚ)
  | .int => some (integersBelow (2 ^ 31))
  | .long => some (integersBelow (2 ^ 63))
  | .decimal precision scale => some (decimals precision (scale.getD 0))
  | .number => some Set.univ
  | _ => none

/-- The arrays of some items. -/
def arraysOf (items : Set Value) : Set Value := {v | ∃ l, v = .array l ∧ ∀ i ∈ l, i ∈ items}

/-- The values of a type with exact values; the other types are not looked at here. -/
def values? : DataType → Option (Set Value)
  | .arrayOf element => element.values?.map arraysOf
  | t => t.numbers?.map (Set.image .number)

/-- The new decimal type has fewer digits than places, so that one place or more right behind the
point is always zero, and the values of the old type need such a place. -/
inductive LosesDigits : DataType → DataType → Prop
  | decimal {p q : ℕ} {s t : Option ℕ} (used : 0 < p) (short : q < t.getD 0)
      (needed : q + s.getD 0 < p + t.getD 0) :
      LosesDigits (.decimal (some p) s) (.decimal (some q) t)
  | arrayOf {t u : DataType} (h : LosesDigits t u) : LosesDigits (.arrayOf t) (.arrayOf u)

lemma not_losesDigits_self (t : DataType) : ¬ t.LosesDigits t := by
  intro h
  induction t with
  | arrayOf t ih =>
      cases h with
      | arrayOf h => exact ih h
  | decimal p s =>
      cases h with
      | decimal _ _ needed => exact lt_irrefl _ needed
  | _ => cases h

/-- A decimal type with room for the digits of an integer type has its values. -/
lemma integersBelow_subset_decimals {bound : ℤ} {digits : ℕ} (hbound : bound < 10 ^ digits)
    (hdigits : digits ≠ 0) {p s : Option ℕ} (h : digits ≤ integerDigits p s) :
    integersBelow bound ⊆ decimals p (s.getD 0) := by
  have whole : integersBelow bound ⊆ decimals (some digits) 0 := by
    rintro _ ⟨n, hlower, hupper, rfl⟩
    refine ⟨n, ?_, by simp⟩
    simp only [Option.mem_some, forall_eq']
    exact abs_lt.2 ⟨by omega, by omega⟩
  refine whole.trans ?_
  cases p with
  | none => exact decimals_subset_of_unlimited _ (Nat.zero_le _)
  | some p =>
      have room : digits ≤ p - s.getD 0 := Nat.cast_le.1 h
      exact (decimals_subset_iff (Nat.zero_le _)).2 (.inr (by omega))

/-- **Of two decimal types the wider one has all values**, unless digits are lost. -/
theorem decimals_subset_iff_not_losesDigits {p s q r : Option ℕ} (places : s.getD 0 ≤ r.getD 0)
    (digits : integerDigits p s ≤ integerDigits q r) :
    decimals p (s.getD 0) ⊆ decimals q (r.getD 0) ↔
      ¬ (decimal p s).LosesDigits (decimal q r) := by
  cases q with
  | none =>
      refine iff_of_true (decimals_subset_of_unlimited p places) ?_
      rintro ⟨⟩
  | some q =>
      cases p with
      | none => exact absurd digits (by simp [integerDigits])
      | some p =>
          have hdigits : p - s.getD 0 ≤ q - r.getD 0 := Nat.cast_le.1 digits
          rw [decimals_subset_iff places]
          constructor
          · rintro h ⟨hp, _, needed⟩
            omega
          · intro h
            by_contra hno
            obtain ⟨hp, hlack⟩ := not_or.1 hno
            exact h (.decimal (by omega) (by omega) (by omega))

/-! ## Widenings -/

lemma integersBelow_subset_of_digits? {digits : ℕ} {p s : Option ℕ} {S : Set ℚ}
    (ht : t.digits? = some digits) (h : digits ≤ integerDigits p s) (hS : t.numbers? = some S) :
    S ⊆ decimals p (s.getD 0) := by
  cases t with
  | int =>
      cases ht
      cases hS
      exact integersBelow_subset_decimals (by decide) (by decide) h
  | long =>
      cases ht
      cases hS
      exact integersBelow_subset_decimals (by decide) (by decide) h
  | _ => cases ht

/-- **A widening of numbers keeps all of them** unless it loses digits. -/
theorem numbers_subset_iff {S T : Set ℚ} (h : t.WidensTo u) (hS : t.numbers? = some S)
    (hT : u.numbers? = some T) : S ⊆ T ↔ ¬ t.LosesDigits u := by
  cases h with
  | refl =>
      obtain rfl := Option.some.inj (hS.symm.trans hT)
      exact iff_of_true subset_rfl (not_losesDigits_self t)
  | int_long =>
      cases hS
      cases hT
      exact iff_of_true (integersBelow_subset (by decide)) (by rintro ⟨⟩)
  | number =>
      cases hT
      exact iff_of_true (Set.subset_univ S) (by rintro ⟨⟩)
  | integer ht h =>
      cases hT
      refine iff_of_true (integersBelow_subset_of_digits? ht h hS) ?_
      rintro ⟨⟩
      cases ht
  | decimal places digits =>
      cases hS
      cases hT
      exact decimals_subset_iff_not_losesDigits places digits
  | int_double => cases hT
  | null | varchar | float_double | date | undeclared | arrayOf => cases hS

/-- Arrays are kept if their items are, since each item is the only one of some array. -/
lemma arraysOf_subset_iff {A B : Set Value} : arraysOf A ⊆ arraysOf B ↔ A ⊆ B := by
  constructor
  · intro h i hi
    obtain ⟨l, hl, hmem⟩ := h ⟨[i], rfl, by simpa using hi⟩
    obtain rfl := Value.array.inj hl
    exact hmem i (by simp)
  · rintro h _ ⟨l, rfl, hl⟩
    exact ⟨l, rfl, fun i hi => h (hl i hi)⟩

lemma losesDigits_arrayOf_iff : (arrayOf t).LosesDigits (arrayOf u) ↔ t.LosesDigits u := by
  constructor
  · rintro ⟨⟩
    assumption
  · exact .arrayOf

variable {A B : Set Value}

lemma exists_numbers? (ht : t.isNumeric = true) (hA : t.values? = some A) :
    ∃ S, t.numbers? = some S ∧ A = Value.number '' S := by
  cases t with
  | int | long | decimal | number =>
      cases hA
      exact ⟨_, rfl, rfl⟩
  | float | double => cases hA
  | _ => cases ht

/-- Numeric types are compared by the numbers that they hold. -/
lemma values_subset_iff_of_isNumeric (h : t.WidensTo u) (ht : t.isNumeric = true)
    (hu : u.isNumeric = true) (hA : t.values? = some A) (hB : u.values? = some B) :
    A ⊆ B ↔ ¬ t.LosesDigits u := by
  obtain ⟨S, hS, rfl⟩ := exists_numbers? ht hA
  obtain ⟨T, hT, rfl⟩ := exists_numbers? hu hB
  rw [Set.image_subset_image_iff fun _ _ => Value.number.inj]
  exact numbers_subset_iff h hS hT

/-- **A safe change of type keeps all values, unless it loses digits.**  For the integers of 32 and
64 bits, the decimals, the numbers and the arrays of such, of any precision, scale and depth, the
values of the old type are values of the new one.  The exception is a new decimal type with fewer
digits than places, and such a change does lose values. -/
theorem values_subset_iff (hA : t.values? = some A) (hB : u.values? = some B)
    (h : (t.compatibility u).IsSafe) : A ⊆ B ↔ ¬ t.LosesDigits u := by
  rw [isSafe_compatibility_iff] at h
  induction h generalizing A B with
  | refl t =>
      obtain rfl := Option.some.inj (hA.symm.trans hB)
      exact iff_of_true subset_rfl (not_losesDigits_self t)
  | arrayOf _ ih =>
      obtain ⟨S, hS, rfl⟩ := Option.map_eq_some_iff.1 hA
      obtain ⟨T, hT, rfl⟩ := Option.map_eq_some_iff.1 hB
      rw [arraysOf_subset_iff, losesDigits_arrayOf_iff]
      exact ih hS hT
  | int_long => exact values_subset_iff_of_isNumeric .int_long rfl rfl hA hB
  | number ht => exact values_subset_iff_of_isNumeric (.number ht) ht rfl hA hB
  | integer ht h =>
      exact values_subset_iff_of_isNumeric (.integer ht h) (isNumeric_of_digits? ht) rfl hA hB
  | decimal places digits =>
      exact values_subset_iff_of_isNumeric (.decimal places digits) rfl rfl hA hB
  | int_double | undeclared => cases hB
  | null | varchar | float_double | date => cases hA

/-- Two digits in front of the point and two more behind it are room for all prices. -/
theorem values_subset_of_more_places :
    let old : DataType := .arrayOf (.decimal (some 10) (some 2))
    let new : DataType := .arrayOf (.decimal (some 14) (some 4))
    ∃ A B, old.values? = some A ∧ new.values? = some B ∧ (old.compatibility new).IsSafe ∧
      ¬ old.LosesDigits new ∧ A ⊆ B := by
  intro old new
  have safe : (old.compatibility new).IsSafe := by decide
  have kept : ¬ old.LosesDigits new := by
    intro h
    cases losesDigits_arrayOf_iff.1 h with
    | decimal _ short _ => exact absurd short (by decide)
  exact ⟨_, _, rfl, rfl, safe, kept, (values_subset_iff rfl rfl safe).2 kept⟩

/-- **A change that is called a widening can lose values**: a half takes five places, of which the
new type has the last one only. -/
theorem values_lost_of_missing_places :
    let old : DataType := .decimal (some 5) (some 5)
    let new : DataType := .decimal (some 1) (some 5)
    parse? "decimal(5,5)" = some old ∧ parse? "decimal(1,5)" = some new ∧
      old.compatibility new = .widened ∧
      ∃ A B, old.values? = some A ∧ new.values? = some B ∧ .number (1 / 2) ∈ A ∧
        .number (1 / 2) ∉ B := by
  intro old new
  refine ⟨by decide +kernel, by decide +kernel, by decide, _, _, rfl, rfl, ?_, ?_⟩
  · refine ⟨1 / 2, ⟨50000, ?_, ?_⟩, rfl⟩
    · simp
    · norm_num
  · rintro ⟨_, ⟨n, hn, hhalf⟩, hnumber⟩
    obtain rfl := Value.number.inj hnumber
    have hn : |n| < 10 := by simpa using hn
    have hhalf : (n : ℚ) = 50000 := by
      have places : (n : ℚ) / 10 ^ 5 = 1 / 2 := hhalf.symm
      rw [div_eq_iff (by positivity)] at places
      rw [places]
      norm_num
    obtain rfl : n = 50000 := by exact_mod_cast hhalf
    exact absurd hn (by decide)

end DataType

end ContractDrift
