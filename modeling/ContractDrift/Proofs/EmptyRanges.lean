import ContractDrift.Proofs.AcceptedValues
import ContractDrift.Proofs.DistinctNames
import ContractDrift.Proofs.Findings

/-!
# Limits that nothing satisfies

A check looks for a least length above the greatest one and for a `minimum` above the `maximum`.
The first is all that can be wrong with lengths.  The second leaves the exclusive keywords out,
which the effective bounds of a field take into account: put together into a threshold these are
empty exactly if no number satisfies the four keywords, while a check finds what is empty without
the exclusive ones.

* `Constraints.AllowsLength`, `Constraints.AllowsNumber` — a length and a number satisfy the
  keywords about them.
* **`Constraints.isEmpty_threshold_iff`** — the effective bounds are exact.
* **`Contract.lint_finds_empty_ranges`** — which limits a check finds that nothing satisfies.
* `Contract.lint_misses_exclusive_maximum` — limits that it does not find.
-/

namespace ContractDrift

namespace Constraints

/-- The length satisfies both keywords about lengths. -/
structure AllowsLength (k : Constraints) (l : ℕ) : Prop where
  minLength : ∀ least ∈ k.minLength, least ≤ l
  maxLength : ∀ greatest ∈ k.maxLength, l ≤ greatest

/-- The number satisfies the four keywords about numbers. -/
structure AllowsNumber (k : Constraints) (x : ℚ) : Prop where
  minimum : ∀ m ∈ k.minimum, ∃ v ∈ m.value?, v ≤ (x : WithBotTop ℚ)
  maximum : ∀ m ∈ k.maximum, ∃ v ∈ m.value?, (x : WithBotTop ℚ) ≤ v
  exclusiveMinimum : ∀ m ∈ k.exclusiveMinimum, ∃ v ∈ m.value?, v < (x : WithBotTop ℚ)
  exclusiveMaximum : ∀ m ∈ k.exclusiveMaximum, ∃ v ∈ m.value?, (x : WithBotTop ℚ) < v

/-- The effective bounds as an interval. -/
def threshold (k : Constraints) : Threshold := { lower := k.lowerBound, upper := k.upperBound }

/-- The constraints without the exclusive keywords. -/
def inclusiveOnly (k : Constraints) : Constraints :=
  { k with exclusiveMinimum := none, exclusiveMaximum := none }

variable {k : Constraints}

/-! ## Lengths -/

lemma not_allowsLength_iff : (∀ l, ¬ k.AllowsLength l) ↔
    ∃ least ∈ k.minLength, ∃ greatest ∈ k.maxLength, greatest < least := by
  constructor
  · intro h
    cases hleast : k.minLength with
    | none => exact absurd ⟨by simp [hleast], fun _ _ => Nat.zero_le _⟩ (h 0)
    | some least =>
        -- the least length itself is refused
        refine ⟨least, rfl, ?_⟩
        by_contra hnot
        push Not at hnot
        exact h least ⟨by simp [hleast], hnot⟩
  · rintro ⟨least, hleast, greatest, hgreatest, hlt⟩ l ⟨minLength, maxLength⟩
    exact absurd ((minLength least hleast).trans (maxLength greatest hgreatest)) (Nat.not_le.2 hlt)

/-! ## Numbers -/

lemma allowsNumber_iff_mem_accepted (hk : ∀ m ∈ k.bounds, m ≠ .nan) {x : ℚ} :
    k.AllowsNumber x ↔ x ∈ k.threshold.accepted := by
  rw [Threshold.accepted, threshold, Set.mem_inter_iff, mem_admitted_lowerBound_iff hk,
    mem_admitted_upperBound_iff hk]
  constructor
  · exact fun h => ⟨⟨h.minimum, h.exclusiveMinimum⟩, h.maximum, h.exclusiveMaximum⟩
  · exact fun h => ⟨h.1.1, h.2.1, h.1.2, h.2.2⟩

lemma isFinite_of_mem_bounds_threshold (hk : ∀ m ∈ k.bounds, m.isFinite = true) :
    ∀ m ∈ k.threshold.bounds, m.isFinite = true := by
  obtain ⟨minimum, maximum, exclusiveMinimum, exclusiveMaximum⟩ := forall_mem_bounds.1 hk
  exact Threshold.forall_mem_bounds.2 ⟨forall_mem_effectiveBound minimum exclusiveMinimum,
    forall_mem_effectiveBound maximum exclusiveMaximum⟩

/-- **The effective bounds are exact**: they leave nothing exactly if no number satisfies the four
keywords. -/
theorem isEmpty_threshold_iff (hk : ∀ m ∈ k.bounds, m.isFinite = true) :
    k.threshold.isEmpty = true ↔ ∀ x, ¬ k.AllowsNumber x := by
  have numbers : ∀ m ∈ k.bounds, m ≠ .nan := by
    rintro m hm rfl
    exact absurd (hk _ hm) (by decide)
  rw [Threshold.isEmpty_iff (isFinite_of_mem_bounds_threshold hk)]
  exact forall_congr' fun x => not_congr (allowsNumber_iff_mem_accepted numbers).symm

lemma isFinite_of_mem_bounds_inclusiveOnly (hk : ∀ m ∈ k.bounds, m.isFinite = true) :
    ∀ m ∈ k.inclusiveOnly.bounds, m.isFinite = true := by
  obtain ⟨minimum, maximum, _⟩ := forall_mem_bounds.1 hk
  exact forall_mem_bounds.2 ⟨minimum, maximum, by simp [inclusiveOnly], by simp [inclusiveOnly]⟩

/-- Without exclusive keywords a `minimum` above the `maximum` is all that can be wrong. -/
lemma isEmpty_threshold_inclusiveOnly : k.inclusiveOnly.threshold.isEmpty = true ↔
    ∃ least ∈ k.minimum, ∃ greatest ∈ k.maximum, least.order greatest = some .gt := by
  have order : ∀ {a b : Binary64}, b.below a = true ↔ a.order b = some .gt := fun {a b} => by
    rw [Binary64.below, beq_iff_eq, Binary64.order_swap b a]
    cases a.order b with
    | none => simp
    | some o => cases o <;> simp
  rw [threshold, lowerBound, upperBound, inclusiveOnly]
  cases k.minimum <;> cases k.maximum <;> simp [effectiveBound, Threshold.isEmpty, order]

lemma not_allowsNumber_inclusiveOnly_iff (hk : ∀ m ∈ k.bounds, m.isFinite = true) :
    (∀ x, ¬ k.inclusiveOnly.AllowsNumber x) ↔
      ∃ least ∈ k.minimum, ∃ greatest ∈ k.maximum, least.order greatest = some .gt := by
  rw [← isEmpty_threshold_iff (isFinite_of_mem_bounds_inclusiveOnly hk),
    isEmpty_threshold_inclusiveOnly]

end Constraints

/-! ## What a check finds -/

namespace Contract

variable {c : Contract} {p : Path} {a : FieldAttributes} {type : DataType} {k : Constraints}

/-- A check finds at the path that no length is left. -/
def FindsEmptyLengths (c : Contract) (p : Path) : Prop :=
  ∃ least greatest, ⟨p, .emptyLengthRange least greatest⟩ ∈ c.lint.findings

/-- A check finds at the path that no number is left. -/
def FindsEmptyNumbers (c : Contract) (p : Path) : Prop :=
  ∃ least greatest, ⟨p, .emptyValueRange least greatest⟩ ∈ c.lint.findings

/-- What is found about lengths is a least one above the greatest one. -/
lemma findsEmptyLengths_iff : c.FindsEmptyLengths p ↔ ∃ a type k,
    c.FieldAt p (.scalar a type k) ∧
      ∃ least ∈ k.minLength, ∃ greatest ∈ k.maxLength, greatest < least := by
  constructor
  · rintro ⟨least, greatest, hfound⟩
    obtain ⟨f, hf, hproblem⟩ := (mem_lint_iff_fieldAt (by simp) (by simp)).1 hfound
    obtain ⟨a, type, k, rfl, hempty⟩ := by simpa using hproblem
    exact ⟨a, type, k, hf, least, hempty.1, greatest, hempty.2⟩
  · rintro ⟨a, type, k, hf, least, hleast, greatest, hgreatest, hlt⟩
    refine ⟨least, greatest, mem_lint_iff.2 (.field hf ?_)⟩
    simpa using ⟨hleast, hgreatest, hlt⟩

/-- What is found about numbers is a `minimum` above the `maximum`. -/
lemma findsEmptyNumbers_iff : c.FindsEmptyNumbers p ↔ ∃ a type k,
    c.FieldAt p (.scalar a type k) ∧
      ∃ least ∈ k.minimum, ∃ greatest ∈ k.maximum, least.order greatest = some .gt := by
  constructor
  · rintro ⟨least, greatest, hfound⟩
    obtain ⟨f, hf, hproblem⟩ := (mem_lint_iff_fieldAt (by simp) (by simp)).1 hfound
    obtain ⟨a, type, k, rfl, hempty⟩ := by simpa using hproblem
    exact ⟨a, type, k, hf, least, hempty.1, greatest, hempty.2⟩
  · rintro ⟨a, type, k, hf, least, hleast, greatest, hgreatest, horder⟩
    refine ⟨least, greatest, mem_lint_iff.2 (.field hf ?_)⟩
    simpa using ⟨hleast, hgreatest, horder⟩

/-- **A check finds limits that nothing satisfies, as far as it looks.**  It is found if no length
satisfies both keywords about lengths, and if no number satisfies `minimum` and `maximum`.  If no
name repeats that is all: where numbers are left without the exclusive keywords nothing is found. -/
theorem lint_finds_empty_ranges (hf : c.FieldAt p (.scalar a type k))
    (hk : ∀ m ∈ k.bounds, m.isFinite = true) :
    ((∀ l, ¬ k.AllowsLength l) → c.FindsEmptyLengths p) ∧
    ((∀ x, ¬ k.inclusiveOnly.AllowsNumber x) → c.FindsEmptyNumbers p) ∧
    (c.NamesDistinct → (c.FindsEmptyLengths p → ∀ l, ¬ k.AllowsLength l) ∧
      (c.FindsEmptyNumbers p → ∀ x, ¬ k.inclusiveOnly.AllowsNumber x)) := by
  rw [Constraints.not_allowsLength_iff, Constraints.not_allowsNumber_inclusiveOnly_iff hk,
    findsEmptyLengths_iff, findsEmptyNumbers_iff]
  refine ⟨fun h => ⟨a, type, k, hf, h⟩, fun h => ⟨a, type, k, hf, h⟩, fun distinct => ?_⟩
  constructor
  · rintro ⟨b, other, j, hj, h⟩
    cases hf.unique distinct hj
    exact h
  · rintro ⟨b, other, j, hj, h⟩
    cases hf.unique distinct hj
    exact h

/-- A column with three characters or more but at most two, and with five or more but at most four
as its value. -/
theorem lint_finds_empty_ranges_of_swapped_ends :
    let limits : Constraints :=
      { minLength := some 3, maxLength := some 2
        minimum := some (.finite false 5 0), maximum := some (.finite false 4 0) }
    let shop := single [.scalar { name := "amount" } .string limits]
    shop.FindsEmptyLengths ["models", "orders", "fields", "amount"] ∧
      shop.FindsEmptyNumbers ["models", "orders", "fields", "amount"] := by
  intro limits shop
  have field : shop.FieldAt ["models", "orders", "fields", "amount"]
      (.scalar { name := "amount" } .string limits) :=
    (fieldAt_single_iff (by simp [Field.children])).2 ⟨List.mem_singleton_self _, rfl⟩
  have finite : ∀ m ∈ limits.bounds, m.isFinite = true := by decide
  obtain ⟨lengths, numbers, _⟩ := lint_finds_empty_ranges field finite
  constructor
  · exact lengths (Constraints.not_allowsLength_iff.2 ⟨3, rfl, 2, rfl, by decide⟩)
  · exact numbers ((Constraints.not_allowsNumber_inclusiveOnly_iff finite).2
      ⟨_, rfl, _, rfl, by decide⟩)

/-- No number is five at least and below five, and a check finds nothing. -/
theorem lint_misses_exclusive_maximum :
    let limits : Constraints :=
      { minimum := some (.finite false 5 0), exclusiveMaximum := some (.finite false 5 0) }
    let shop := single [.scalar { name := "amount" } .int limits]
    shop.FieldAt ["models", "orders", "fields", "amount"]
        (.scalar { name := "amount" } .int limits) ∧
      (∀ m ∈ limits.bounds, m.isFinite = true) ∧ (∀ x, ¬ limits.AllowsNumber x) ∧
      shop.lint.findings = [] := by
  intro limits shop
  have finite : ∀ m ∈ limits.bounds, m.isFinite = true := by decide
  refine ⟨?_, finite, (Constraints.isEmpty_threshold_iff finite).1 (by decide), rfl⟩
  exact (fieldAt_single_iff (by simp [Field.children])).2 ⟨List.mem_singleton_self _, rfl⟩

end Contract

end ContractDrift
