import ContractDrift.Loading.Quality
import ContractDrift.Proofs.AcceptedValues

/-!
# The keywords of a rule as one interval

Each keyword of a quality rule asks something of the value of its metric.  The keywords are put into
the interval one after the other, and each bound is kept or replaced as the tighter one, so the
interval has forgotten which keywords it is from, but not what they ask.

* `RuleDeclaration.Satisfies` — the value satisfies each keyword that is present.
* `Threshold.Describes` — an interval that accepts exactly the values with a property; with one more
  bound it accepts those that this bound accepts as well.
* **`RuleDeclaration.threshold_accepts_satisfying`** — the interval of a rule accepts exactly the
  values that satisfy the rule, and a rule has one unless its range is not of two values.
-/

namespace ContractDrift

namespace Threshold

variable {t : Threshold} {P Q : ℚ → Prop} {value : Option Binary64} {inclusive : Bool}

/-- The bounds are numbers, and exactly the values with the property are accepted. -/
structure Describes (t : Threshold) (P : ℚ → Prop) : Prop where
  ne_nan : ∀ m ∈ t.bounds, m ≠ .nan
  mem_accepted_iff : ∀ x, x ∈ t.accepted ↔ P x

lemma Describes.congr (h : t.Describes P) (hPQ : ∀ x, P x ↔ Q x) : t.Describes Q :=
  ⟨h.ne_nan, fun x => (h.mem_accepted_iff x).trans (hPQ x)⟩

/-- Without bounds all values are accepted. -/
lemma describes_unbounded : Describes {} fun _ => True where
  ne_nan := by simp [bounds]
  mem_accepted_iff := by simp [accepted, Side.admitted]

/-- **One more lower bound accepts less by what it asks.** -/
theorem Describes.withLower (h : t.Describes P) (hvalue : ∀ m ∈ value, m ≠ .nan) :
    (t.withLower value inclusive).Describes fun x =>
      P x ∧ ∀ m ∈ value, Side.lower.Admits ⟨m, inclusive⟩ x := by
  cases value with
  | none => exact h.congr (by simp)
  | some m =>
      have hm : m ≠ .nan := hvalue m rfl
      obtain ⟨hlower, hupper⟩ := forall_mem_bounds.1 h.ne_nan
      refine ⟨forall_mem_bounds.2 ⟨?_, hupper⟩, fun x => ?_⟩
      · exact Side.tighter_ne_nan hlower hm
      · rw [← h.mem_accepted_iff, accepted, accepted, Set.mem_inter_iff, Set.mem_inter_iff,
          Threshold.withLower, Side.mem_admitted_tighter_iff hlower hm, and_right_comm]
        simp

/-- **One more upper bound accepts less by what it asks.** -/
theorem Describes.withUpper (h : t.Describes P) (hvalue : ∀ m ∈ value, m ≠ .nan) :
    (t.withUpper value inclusive).Describes fun x =>
      P x ∧ ∀ m ∈ value, Side.upper.Admits ⟨m, inclusive⟩ x := by
  cases value with
  | none => exact h.congr (by simp)
  | some m =>
      have hm : m ≠ .nan := hvalue m rfl
      obtain ⟨hlower, hupper⟩ := forall_mem_bounds.1 h.ne_nan
      refine ⟨forall_mem_bounds.2 ⟨hlower, ?_⟩, fun x => ?_⟩
      · exact Side.tighter_ne_nan hupper hm
      · rw [← h.mem_accepted_iff, accepted, accepted, Set.mem_inter_iff, Set.mem_inter_iff,
          Threshold.withUpper, Side.mem_admitted_tighter_iff hupper hm, and_assoc]
        simp

end Threshold

namespace RuleDeclaration

/-- The numbers that the keywords of a rule name. -/
def limits (r : RuleDeclaration) : List Binary64 :=
  r.mustBe.toList ++ r.mustBeGreaterThan.toList ++ r.mustBeAtLeast.toList ++
    r.mustBeLessThan.toList ++ r.mustBeAtMost.toList ++ r.mustBeBetween.getD []

/-- The value satisfies each keyword that is present. -/
structure Satisfies (r : RuleDeclaration) (x : ℚ) : Prop where
  mustBe : ∀ m ∈ r.mustBe, m.value? = some (x : WithBotTop ℚ)
  mustBeGreaterThan : ∀ m ∈ r.mustBeGreaterThan, ∃ v ∈ m.value?, v < (x : WithBotTop ℚ)
  mustBeAtLeast : ∀ m ∈ r.mustBeAtLeast, ∃ v ∈ m.value?, v ≤ (x : WithBotTop ℚ)
  mustBeLessThan : ∀ m ∈ r.mustBeLessThan, ∃ v ∈ m.value?, (x : WithBotTop ℚ) < v
  mustBeAtMost : ∀ m ∈ r.mustBeAtMost, ∃ v ∈ m.value?, (x : WithBotTop ℚ) ≤ v
  mustBeBetween : ∀ low high, r.mustBeBetween = some [low, high] →
    (∃ v ∈ low.value?, v ≤ (x : WithBotTop ℚ)) ∧ ∃ v ∈ high.value?, (x : WithBotTop ℚ) ≤ v

variable {r : RuleDeclaration}

/-- A value that is neither less nor more than a number is that number. -/
lemma value?_eq_iff {m : Binary64} {x : WithBotTop ℚ} :
    m.value? = some x ↔ (∃ v ∈ m.value?, v ≤ x) ∧ ∃ v ∈ m.value?, x ≤ v := by
  constructor
  · intro h
    exact ⟨⟨x, h, le_rfl⟩, x, h, le_rfl⟩
  · rintro ⟨⟨v, hv, hvx⟩, w, hw, hxw⟩
    obtain rfl : v = w := Option.some.inj (hv.symm.trans hw)
    rw [hvx.antisymm hxw] at hv
    exact hv

/-! ### The keywords about one number -/

/-- The interval of the keywords that are about one number each. -/
def unranged (r : RuleDeclaration) : Threshold :=
  (((((Threshold.withLower {} r.mustBe true).withUpper r.mustBe true).withLower
    r.mustBeGreaterThan false).withLower r.mustBeAtLeast true).withUpper
    r.mustBeLessThan false).withUpper r.mustBeAtMost true

lemma describes_unranged (hr : ∀ m ∈ r.limits, m ≠ .nan) :
    r.unranged.Describes { r with mustBeBetween := none }.Satisfies := by
  simp only [limits, List.forall_mem_append, Option.mem_toList] at hr
  obtain ⟨⟨⟨⟨⟨mustBe, greaterThan⟩, atLeast⟩, lessThan⟩, atMost⟩, _⟩ := hr
  refine ((((((Threshold.describes_unbounded.withLower mustBe).withUpper mustBe).withLower
    greaterThan).withLower atLeast).withUpper lessThan).withUpper atMost).congr fun x => ?_
  simp only [Side.admits_lower_inclusive, Side.admits_lower_exclusive,
    Side.admits_upper_inclusive, Side.admits_upper_exclusive]
  constructor
  · rintro ⟨⟨⟨⟨⟨⟨_, hge⟩, hle⟩, hgreater⟩, hatLeast⟩, hless⟩, hatMost⟩
    exact {
      mustBe := fun m hm => value?_eq_iff.2 ⟨hge m hm, hle m hm⟩
      mustBeGreaterThan := hgreater
      mustBeAtLeast := hatLeast
      mustBeLessThan := hless
      mustBeAtMost := hatMost
      mustBeBetween := nofun }
  · intro h
    exact ⟨⟨⟨⟨⟨⟨trivial, fun m hm => (value?_eq_iff.1 (h.mustBe m hm)).1⟩,
      fun m hm => (value?_eq_iff.1 (h.mustBe m hm)).2⟩, h.mustBeGreaterThan⟩, h.mustBeAtLeast⟩,
      h.mustBeLessThan⟩, h.mustBeAtMost⟩

/-! ### The range -/

lemma threshold_eq (r : RuleDeclaration) :
    r.threshold = match r.mustBeBetween with
      | none => .ok r.unranged
      | some [low, high] => .ok ((r.unranged.withLower (some low) true).withUpper (some high) true)
      | some values => .error (.range values.length) := rfl

/-- Only a range that is not of two values is refused. -/
lemma threshold_eq_error_iff {problem : ThresholdProblem} :
    r.threshold = .error problem ↔
      ∃ values ∈ r.mustBeBetween, values.length ≠ 2 ∧ problem = .range values.length := by
  rw [threshold_eq]
  split
  · simp_all
  · simp_all
  · rename_i values hne hrange
    have hlength : values.length ≠ 2 := by
      intro h
      obtain ⟨low, high, rfl⟩ := List.length_eq_two.1 h
      exact hne low high rfl
    simp [hrange, hlength, eq_comm]

/-- **The interval of a rule is the conjunction of its keywords.**  Where no keyword names what is
not a number, a rule has an interval exactly if its range, if it has one, is of two values, and the
interval accepts exactly the values that satisfy every keyword.  Otherwise the problem is the number
of values in the range. -/
theorem threshold_accepts_satisfying (r : RuleDeclaration) (hr : ∀ m ∈ r.limits, m ≠ .nan) :
    (∀ problem, r.threshold = .error problem ↔
      ∃ values ∈ r.mustBeBetween, values.length ≠ 2 ∧ problem = .range values.length) ∧
    ((∀ values ∈ r.mustBeBetween, values.length = 2) →
      ∃ t, r.threshold = .ok t ∧ ∀ x, x ∈ t.accepted ↔ r.Satisfies x) := by
  refine ⟨fun _ => threshold_eq_error_iff, fun hrange => ?_⟩
  have unranged := describes_unranged hr
  cases hbetween : r.mustBeBetween with
  | none =>
      refine ⟨r.unranged, by rw [threshold_eq, hbetween], fun x => ?_⟩
      have same : { r with mustBeBetween := none } = r := by rw [← hbetween]
      rw [unranged.mem_accepted_iff, same]
  | some values =>
      obtain ⟨low, high, rfl⟩ := List.length_eq_two.1 (hrange values hbetween)
      have limits : ∀ m ∈ [low, high], m ≠ .nan := by
        intro m hm
        refine hr m (List.mem_append_right _ ?_)
        rwa [hbetween]
      have hlow : ∀ m ∈ some low, m ≠ .nan := by simpa using limits low
      have hhigh : ∀ m ∈ some high, m ≠ .nan := by simpa using limits high
      refine ⟨(r.unranged.withLower (some low) true).withUpper (some high) true,
        by rw [threshold_eq, hbetween], fun x => ?_⟩
      rw [((unranged.withLower hlow).withUpper hhigh).mem_accepted_iff]
      simp only [Option.mem_some, forall_eq', Side.admits_lower_inclusive,
        Side.admits_upper_inclusive]
      constructor
      · rintro ⟨⟨h, hlow⟩, hhigh⟩
        exact { h with
          mustBeBetween := by
            intro low' high' h'
            rw [hbetween] at h'
            cases h'
            exact ⟨hlow, hhigh⟩ }
      · intro h
        obtain ⟨hlow, hhigh⟩ := h.mustBeBetween low high hbetween
        exact ⟨⟨{ h with mustBeBetween := nofun }, hlow⟩, hhigh⟩

/-- More than a half and at least a half, at most ten and from zero to ten: the half is left out,
the ten is not. -/
theorem threshold_accepts_satisfying_of_half_to_ten :
    let r : RuleDeclaration :=
      { mustBeGreaterThan := some (.finite false 1 (-1))
        mustBeAtLeast := some (.finite false 2 (-2))
        mustBeAtMost := some (.finite false 10 0)
        mustBeBetween := some [.finite true 0 0, .finite false 10 0] }
    (∀ m ∈ r.limits, m ≠ .nan) ∧ (∀ values ∈ r.mustBeBetween, values.length = 2) ∧
      r.threshold = .ok ⟨some ⟨.finite false 1 (-1), false⟩, some ⟨.finite false 10 0, true⟩⟩ ∧
      r.Satisfies 10 ∧ ¬ r.Satisfies (1 / 2) := by
  intro r
  have numbers : ∀ m ∈ r.limits, m ≠ .nan := by decide
  have pair : ∀ values ∈ r.mustBeBetween, values.length = 2 := by decide
  have computed : r.threshold =
      .ok ⟨some ⟨.finite false 1 (-1), false⟩, some ⟨.finite false 10 0, true⟩⟩ := by decide
  obtain ⟨t, ht, accepts⟩ := (threshold_accepts_satisfying r numbers).2 pair
  obtain rfl := Except.ok.inj (computed.symm.trans ht)
  have half : Binary64.value? (.finite false 1 (-1)) = some (((1 / 2 : ℚ)) : WithBotTop ℚ) := by
    simp [Binary64.value?, Binary64.rational, Binary64.signed]
  have ten : Binary64.value? (.finite false 10 0) = some ((10 : ℚ) : WithBotTop ℚ) := by
    simp [Binary64.value?, Binary64.rational, Binary64.signed]
  refine ⟨numbers, pair, computed, ?_, ?_⟩
  · rw [← accepts, Threshold.mem_accepted_iff_of_bounds half ten]
    norm_num
  · rw [← accepts, Threshold.mem_accepted_iff_of_bounds half ten]
    norm_num

end RuleDeclaration

end ContractDrift
