import ContractDrift.Contract.DataType
import Mathlib.Data.ENat.Basic
import Mathlib.Tactic.Lemma

/-!
# Safe changes of type

A change of type is safe if it is none at all or if the new type is a wider one.  What is wider is
said by a table of types, by the digits of decimals, and for arrays by their elements.

* `DataType.integerDigits`, `DataType.decimalWidens_iff` — of two decimals the wider one has as many
  places or more behind the point and as many digits or more in front of it.  Both are orders, and
  an integer type takes part with the digits that it needs.
* `DataType.WidensTo` — the table as a relation, one constructor for each sort of row.
* **`DataType.isSafe_compatibility_iff`** — the relation says which changes are safe.
* **`DataType.isSafe_compatibility_trans`** — safe changes compose.
-/

namespace ContractDrift

/-- The change is graded as one that keeps all values. -/
def Compatibility.IsSafe (c : Compatibility) : Prop := c = .identical ∨ c = .widened

instance (c : Compatibility) : Decidable c.IsSafe :=
  inferInstanceAs (Decidable (c = .identical ∨ c = .widened))

namespace DataType

/-! ## Digits -/

/-- The digits that a decimal type keeps in front of the point. -/
def integerDigits (precision scale : Option ℕ) : ℕ∞ :=
  match precision with
  | none => ⊤
  | some p => (p - scale.getD 0 : ℕ)

/-- The digits that hold every value of an integer type. -/
def digits? : DataType → Option ℕ
  | .int => some intDigits
  | .long => some longDigits
  | _ => none

lemma holdsInteger_iff {p s : Option ℕ} {digits : ℕ} :
    holdsInteger p s digits = true ↔ digits ≤ integerDigits p s := by
  cases p with
  | none => simp [holdsInteger, integerDigits]
  | some p => simp only [holdsInteger, integerDigits, decide_eq_true_eq, Nat.cast_le]

/-- **Of two decimals the wider one keeps all digits**, in front of the point and behind it. -/
theorem decimalWidens_iff {p s q t : Option ℕ} : decimalWidens p s q t = true ↔
    s.getD 0 ≤ t.getD 0 ∧ integerDigits p s ≤ integerDigits q t := by
  rw [decimalWidens.eq_def, Bool.and_eq_true, decide_eq_true_eq]
  refine and_congr_right fun _ => ?_
  cases q with
  | none => simp [integerDigits]
  | some q =>
      cases p with
      | none => simp [integerDigits]
      | some p => simp only [integerDigits, decide_eq_true_eq, Nat.cast_le]

/-! ## The table as a relation -/

/-- The values of the one type stay values of the other one, by the table. -/
inductive WidensTo : DataType → DataType → Prop
  | refl (t : DataType) : WidensTo t t
  | null (t : DataType) : WidensTo .null t
  | varchar : WidensTo .varchar .string
  | int_long : WidensTo .int .long
  | int_double : WidensTo .int .double
  | float_double : WidensTo .float .double
  | number {t : DataType} (ht : t.isNumeric = true) : WidensTo t .number
  | integer {t : DataType} {digits : ℕ} {p s : Option ℕ} (ht : t.digits? = some digits)
      (h : digits ≤ integerDigits p s) : WidensTo t (.decimal p s)
  | decimal {p s q t : Option ℕ} (places : s.getD 0 ≤ t.getD 0)
      (digits : integerDigits p s ≤ integerDigits q t) : WidensTo (.decimal p s) (.decimal q t)
  | date {t : DataType} (ht : t = .timestamp ∨ t = .timestampNtz) : WidensTo .date t
  | undeclared (t : DataType) : WidensTo (.arrayOf t) .array
  | arrayOf {t u : DataType} (h : WidensTo t u) : WidensTo (.arrayOf t) (.arrayOf u)

lemma widensTo_of_widens {t u : DataType} (h : widens t u = true) : WidensTo t u := by
  revert h
  fun_cases widens t u <;> intro h
  · exact .null _
  · exact .varchar
  · exact .int_long
  · exact .int_double
  · exact .number rfl
  · exact .integer rfl (holdsInteger_iff.1 h)
  · exact .number rfl
  · exact .integer rfl (holdsInteger_iff.1 h)
  · exact .float_double
  · exact .number rfl
  · exact .number rfl
  · exact .number rfl
  · obtain ⟨places, digits⟩ := decimalWidens_iff.1 h
    exact .decimal places digits
  · exact .date (.inl rfl)
  · exact .date (.inr rfl)
  · exact .undeclared _
  · cases h

/-- Types are identical to themselves only. -/
lemma compatibility_eq_identical_iff (t u : DataType) :
    t.compatibility u = .identical ↔ t = u := by
  fun_induction compatibility t u with
  | case1 old new ih => simpa using ih
  | case2 t u => simp
  | case3 t u _ hne _ => simp [hne]
  | case4 t u _ hne _ => simp [hne]

/-- What the table calls wider is a safe change. -/
lemma isSafe_of_widens {t u : DataType} (h : widens t u = true) : (t.compatibility u).IsSafe := by
  fun_cases compatibility t u with
  | case1 => cases h
  | case2 => exact .inl rfl
  | case3 => exact .inr rfl
  | case4 _ _ _ _ hno => exact absurd h hno

lemma isSafe_number {t : DataType} (ht : t.isNumeric = true) :
    (t.compatibility .number).IsSafe := by
  cases t with
  | number => exact .inl rfl
  | int | long | float | double | decimal => exact isSafe_of_widens rfl
  | _ => cases ht

lemma isSafe_integer {t : DataType} {digits : ℕ} {p s : Option ℕ} (ht : t.digits? = some digits)
    (h : digits ≤ integerDigits p s) : (t.compatibility (.decimal p s)).IsSafe := by
  cases t with
  | int | long =>
      cases ht
      exact isSafe_of_widens (holdsInteger_iff.2 h)
  | _ => cases ht

/-- **The relation says which changes are safe.** -/
theorem isSafe_compatibility_iff {t u : DataType} :
    (t.compatibility u).IsSafe ↔ t.WidensTo u := by
  constructor
  · intro h
    fun_induction compatibility t u with
    | case1 t u ih => exact .arrayOf (ih h)
    | case2 t => exact .refl t
    | case3 t u _ _ hwidens => exact widensTo_of_widens hwidens
    | case4 => rcases h with h | h <;> cases h
  · intro h
    induction h with
    | refl t => exact .inl (compatibility_self t)
    | number ht => exact isSafe_number ht
    | integer ht h => exact isSafe_integer ht h
    | decimal places digits => exact isSafe_of_widens (decimalWidens_iff.2 ⟨places, digits⟩)
    | date ht => rcases ht with rfl | rfl <;> exact isSafe_of_widens rfl
    | null | varchar | int_long | int_double | float_double | undeclared =>
        exact isSafe_of_widens rfl
    | arrayOf _ ih =>
        rw [compatibility]
        exact ih

/-! ## Chains of changes -/

lemma intDigits_le_longDigits : intDigits ≤ longDigits := by decide

lemma isNumeric_of_digits? {t : DataType} {digits : ℕ} (h : t.digits? = some digits) :
    t.isNumeric = true := by
  cases t with
  | int | long => rfl
  | _ => cases h

/-- The types above which the table has no other one. -/
lemma WidensTo.eq_of_topmost {t u : DataType}
    (ht : t = .string ∨ t = .timestamp ∨ t = .timestampNtz ∨ t = .array) (h : t.WidensTo u) :
    u = t := by
  rcases ht with rfl | rfl | rfl | rfl <;> cases h with
  | refl => rfl
  | number ht => cases ht
  | integer ht => cases ht

/-- **Wider than a wider type is wider**, along the table. -/
theorem WidensTo.trans {t u v : DataType} (htu : t.WidensTo u) (huv : u.WidensTo v) :
    t.WidensTo v := by
  induction htu generalizing v with
  | refl => exact huv
  | null => exact .null v
  | varchar =>
      obtain rfl := huv.eq_of_topmost (by simp)
      exact .varchar
  | date ht =>
      obtain rfl := huv.eq_of_topmost (by tauto)
      exact .date ht
  | undeclared t =>
      obtain rfl := huv.eq_of_topmost (by simp)
      exact .undeclared t
  | int_long =>
      cases huv with
      | refl => exact .int_long
      | number => exact .number rfl
      | integer ht h =>
          cases ht
          exact .integer rfl ((Nat.cast_le.2 intDigits_le_longDigits).trans h)
  | int_double =>
      cases huv with
      | refl => exact .int_double
      | number => exact .number rfl
      | integer ht => cases ht
  | float_double =>
      cases huv with
      | refl => exact .float_double
      | number => exact .number rfl
      | integer ht => cases ht
  | number ht =>
      cases huv with
      | refl | number => exact .number ht
      | integer ht' => cases ht'
  | integer ht h =>
      cases huv with
      | refl => exact .integer ht h
      | number => exact .number (isNumeric_of_digits? ht)
      | integer ht' => cases ht'
      | decimal _ digits => exact .integer ht (h.trans digits)
  | decimal places digits =>
      cases huv with
      | refl => exact .decimal places digits
      | number => exact .number rfl
      | integer ht => cases ht
      | decimal places' digits' => exact .decimal (places.trans places') (digits.trans digits')
  | arrayOf h ih =>
      cases huv with
      | refl => exact .arrayOf h
      | number ht => cases ht
      | integer ht => cases ht
      | undeclared => exact .undeclared _
      | arrayOf h' => exact .arrayOf (ih h')

/-- **Safe changes of type compose.**  Whatever the types are, a change that is made in two safe
steps is safe, so that a version can be skipped. -/
theorem isSafe_compatibility_trans {t u v : DataType} (htu : (t.compatibility u).IsSafe)
    (huv : (u.compatibility v).IsSafe) : (t.compatibility v).IsSafe := by
  rw [isSafe_compatibility_iff] at htu huv ⊢
  exact htu.trans huv

/-- Integers in arrays become decimals with two places, and in the end the elements are left
undeclared. -/
theorem isSafe_compatibility_of_integers_in_arrays :
    let integers : DataType := .arrayOf (.arrayOf .int)
    let decimals : DataType := .arrayOf (.arrayOf (.decimal (some 12) (some 2)))
    (integers.compatibility decimals).IsSafe ∧
      (decimals.compatibility (.arrayOf .array)).IsSafe ∧
      (integers.compatibility (.arrayOf .array)).IsSafe := by
  intro integers decimals
  have first : (integers.compatibility decimals).IsSafe := by decide
  have second : (decimals.compatibility (.arrayOf .array)).IsSafe := by decide
  exact ⟨first, second, isSafe_compatibility_trans first second⟩

end DataType

end ContractDrift
