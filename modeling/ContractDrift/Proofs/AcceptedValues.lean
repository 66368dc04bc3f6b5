import ContractDrift.Proofs.Inclusion
import Mathlib.Algebra.Order.Field.Basic
import Mathlib.Order.CompletePartialOrder
import Mathlib.Order.UpperLower.Basic
import Mathlib.Tactic.NormNum

/-!
# The values that are accepted

A bound, a threshold and the constraints of a field each accept a set of values.  What a relation
says about two of them is meant about these sets, and here it is held against them.

* `Side.Admits`, `Threshold.accepted` — the rationals that a bound and an interval accept.
* `Side.isWithin_relation_iff_subset` — on one side the relation is exact: a bound that stands
  further out accepts a value that the other one does not.
* `inter_subset_inter_iff` — an interval with a value in it lies in another one exactly if it does
  so on both sides.
* **`Threshold.relation_exact`** — the relation of two intervals with values in them is the one of
  their sets.
* `Interpretation`, `Constraints.Accepts` — what is looked at in a value, and when constraints
  accept it.
* **`Constraints.relation_sound`** — the relation of constraints never says more than holds of the
  accepted values.  It is not exact, since the sides are not independent of each other: a set of
  allowed values may leave nothing that a pattern would refuse.
-/

namespace ContractDrift

universe u

/-! ## Bounds -/

lemma Binary64.exists_rational {a : Binary64} (h : a.isFinite = true) :
    ∃ q : ℚ, a.value? = some (q : WithBotTop ℚ) := by
  cases a with
  | finite n c e => exact ⟨rational n c e, rfl⟩
  | nan => exact absurd h (by decide)
  | infinite n => exact absurd h (by simp [isFinite])

namespace Side

variable {side : Side} {a b : Bound} {x y : ℚ}

/-- The bound accepts the value: it stands further out, or at the value itself and accepts it. -/
def Admits (side : Side) (b : Bound) (x : ℚ) : Prop :=
  ∃ limit ∈ b.value.value?,
    side.IsOuter limit (x : WithBotTop ℚ) ∨ limit = (x : WithBotTop ℚ) ∧ b.inclusive = true

/-- The values that a side accepts; without a bound these are all. -/
def admitted (side : Side) (bound : Option Bound) : Set ℚ := {x | ∀ b ∈ bound, side.Admits b x}

/-- A bound that another one is within accepts what that one accepts. -/
lemma Admits.of_isWithin (hb : side.Admits b x) (h : (side.compare a b).IsWithin) :
    side.Admits a x := by
  obtain ⟨v, hv, w, hw, hvw⟩ := isWithin_compare.1 h
  obtain ⟨w', hw', hx⟩ := hb
  obtain rfl : w = w' := Option.some.inj (hw.symm.trans hw')
  refine ⟨v, hv, ?_⟩
  rcases hvw with hvw | ⟨rfl, hinclusive⟩
  · rcases hx with hx | ⟨rfl, _⟩
    · exact .inl (hvw.trans hx)
    · exact .inl hvw
  · exact hx.imp_right fun ⟨hx, hb⟩ => ⟨hx, hinclusive hb⟩

/-- **A side that is within another one accepts no more.** -/
theorem admitted_subset_of_isWithin {old new : Option Bound}
    (h : (side.relation old new).IsWithin) : side.admitted new ⊆ side.admitted old := by
  intro x hx a ha
  obtain ⟨b, hb, hab⟩ := isWithin_relation.1 h a ha
  exact (hx b hb).of_isWithin hab

/-- **The tighter of two bounds accepts what both accept.** -/
theorem mem_admitted_tighter_iff {current : Option Bound} {candidate : Bound}
    (hcurrent : ∀ b ∈ current, b.value ≠ .nan) (hcandidate : candidate.value ≠ .nan) :
    x ∈ side.admitted (side.tighter current candidate) ↔
      x ∈ side.admitted current ∧ side.Admits candidate x := by
  have single : x ∈ side.admitted (some candidate) ↔ side.Admits candidate x := by
    simp [admitted]
  rw [← single]
  constructor
  · intro h
    obtain ⟨within, within'⟩ := isWithin_tighter hcurrent hcandidate
    exact ⟨admitted_subset_of_isWithin within h, admitted_subset_of_isWithin within' h⟩
  · rintro ⟨h, h'⟩
    rcases tighter_eq_or side current candidate with taken | taken <;> rw [taken]
    · exact h
    · exact h'

/-! ### One bound -/

variable {m : Binary64}

lemma admits_lower_inclusive :
    Side.lower.Admits ⟨m, true⟩ x ↔ ∃ v ∈ m.value?, v ≤ (x : WithBotTop ℚ) := by
  simp only [Admits, IsOuter, and_true, le_iff_lt_or_eq]

lemma admits_lower_exclusive :
    Side.lower.Admits ⟨m, false⟩ x ↔ ∃ v ∈ m.value?, v < (x : WithBotTop ℚ) := by
  simp only [Admits, IsOuter, Bool.false_eq_true, and_false, or_false]

lemma admits_upper_inclusive :
    Side.upper.Admits ⟨m, true⟩ x ↔ ∃ v ∈ m.value?, (x : WithBotTop ℚ) ≤ v := by
  simp only [Admits, IsOuter, and_true, le_iff_lt_or_eq, eq_comm]

lemma admits_upper_exclusive :
    Side.upper.Admits ⟨m, false⟩ x ↔ ∃ v ∈ m.value?, (x : WithBotTop ℚ) < v := by
  simp only [Admits, IsOuter, Bool.false_eq_true, and_false, or_false]

/-! ### The converse -/

lemma isOuter_coe : side.IsOuter (x : WithBotTop ℚ) (y : WithBotTop ℚ) ↔ side.IsOuter x y := by
  cases side <;> exact WithBotTop.coe_lt_coe

lemma admits_iff {q : ℚ} (hq : b.value.value? = some (q : WithBotTop ℚ)) :
    side.Admits b x ↔ side.IsOuter q x ∨ q = x ∧ b.inclusive = true := by
  rw [Admits, hq]
  simp [isOuter_coe, WithBotTop.coe_injective.eq_iff]

lemma isWithin_compare_iff {v w : ℚ} (hv : a.value.value? = some (v : WithBotTop ℚ))
    (hw : b.value.value? = some (w : WithBotTop ℚ)) : (side.compare a b).IsWithin ↔
      side.IsOuter v w ∨ v = w ∧ (b.inclusive = true → a.inclusive = true) := by
  rw [isWithin_compare, hv, hw]
  simp [isOuter_coe, WithBotTop.coe_injective.eq_iff]

lemma exists_isOuter (side : Side) (x : ℚ) : ∃ y, side.IsOuter y x := by
  cases side
  · exact exists_lt x
  · exact exists_gt x

lemma exists_isOuter_right (side : Side) (x : ℚ) : ∃ y, side.IsOuter x y := by
  cases side
  · exact exists_gt x
  · exact exists_lt x

/-- Between two numbers there is a third one. -/
lemma exists_isOuter_between (h : side.IsOuter x y) :
    ∃ z, side.IsOuter x z ∧ side.IsOuter z y := by
  cases side
  · exact exists_between h
  · obtain ⟨z, hy, hx⟩ := exists_between h
    exact ⟨z, hx, hy⟩

/-- A bound that stands no further in accepts a value that the other one does not. -/
lemma exists_admits_not_admits (ha : a.value.isFinite = true) (hb : b.value.isFinite = true)
    (h : ¬ (side.compare a b).IsWithin) : ∃ x, side.Admits b x ∧ ¬ side.Admits a x := by
  obtain ⟨v, hv⟩ := Binary64.exists_rational ha
  obtain ⟨w, hw⟩ := Binary64.exists_rational hb
  rw [isWithin_compare_iff hv hw] at h
  simp only [admits_iff hv, admits_iff hw]
  rcases isOuter_trichotomy side v w with hvw | rfl | hwv
  · exact absurd (.inl hvw) h
  · -- both stand at the value, which only the one accepts
    have hinclusive : b.inclusive = true ∧ a.inclusive ≠ true := by simpa using mt .inr h
    refine ⟨v, .inr ⟨rfl, hinclusive.1⟩, ?_⟩
    simp [not_isOuter_self, hinclusive.2]
  · obtain ⟨x, hwx, hxv⟩ := exists_isOuter_between hwv
    refine ⟨x, .inl hwx, ?_⟩
    simp [hxv.not_isOuter, hxv.ne.symm]

/-- A bound refuses some value. -/
lemma exists_not_admits (side : Side) (ha : a.value.isFinite = true) : ∃ x, ¬ side.Admits a x := by
  obtain ⟨v, hv⟩ := Binary64.exists_rational ha
  obtain ⟨x, hx⟩ := exists_isOuter side v
  refine ⟨x, ?_⟩
  simp [admits_iff hv, hx.not_isOuter, hx.ne.symm]

/-- **On one side the relation is exact.** -/
theorem isWithin_relation_iff_subset {old new : Option Bound}
    (hold : ∀ b ∈ old, b.value.isFinite = true) (hnew : ∀ b ∈ new, b.value.isFinite = true) :
    (side.relation old new).IsWithin ↔ side.admitted new ⊆ side.admitted old := by
  refine ⟨admitted_subset_of_isWithin, fun h => isWithin_relation.2 fun a ha => ?_⟩
  cases new with
  | none =>
      obtain ⟨x, hx⟩ := exists_not_admits side (hold a ha)
      exact absurd (h (fun b hb => absurd hb (by simp)) a ha) hx
  | some b =>
      refine ⟨b, rfl, by_contra fun hab => ?_⟩
      obtain ⟨x, hx, hx'⟩ := exists_admits_not_admits (hold a ha) (hnew b rfl) hab
      exact hx' (h (fun c hc => Option.some.inj hc ▸ hx) a ha)

/-! ### Further in -/

lemma Admits.of_isOuter (hx : side.Admits b x) (h : side.IsOuter x y) : side.Admits b y := by
  obtain ⟨v, hv, hvx⟩ := hx
  have hxy : side.IsOuter (x : WithBotTop ℚ) (y : WithBotTop ℚ) := isOuter_coe.2 h
  refine ⟨v, hv, .inl ?_⟩
  rcases hvx with hvx | ⟨rfl, _⟩
  · exact hvx.trans hxy
  · exact hxy

lemma isUpperSet_admitted (bound : Option Bound) : IsUpperSet (Side.lower.admitted bound) := by
  intro x y hxy hx
  rcases hxy.eq_or_lt with rfl | h
  · exact hx
  · exact fun b hb => (hx b hb).of_isOuter h

lemma isLowerSet_admitted (bound : Option Bound) : IsLowerSet (Side.upper.admitted bound) := by
  intro x y hyx hx
  rcases hyx.eq_or_lt with rfl | h
  · exact hx
  · exact fun b hb => (hx b hb).of_isOuter h

/-- A bound accepts some value. -/
lemma exists_mem_admitted (side : Side) {bound : Option Bound}
    (h : ∀ b ∈ bound, b.value.isFinite = true) :
    ∃ x, x ∈ side.admitted bound := by
  cases bound with
  | none => exact ⟨0, fun b hb => absurd hb (by simp)⟩
  | some b =>
      obtain ⟨v, hv⟩ := Binary64.exists_rational (h b rfl)
      obtain ⟨x, hx⟩ := exists_isOuter_right side v
      exact ⟨x, fun c hc => Option.some.inj hc ▸ (admits_iff hv).2 (.inl hx)⟩

end Side

/-! ## Intervals -/

/-- **An interval with a value in it lies in another one exactly if it does so on both sides.** -/
theorem inter_subset_inter_iff {α : Type u} [LinearOrder α] {L L' U U' : Set α}
    (hL' : IsUpperSet L') (hU' : IsLowerSet U') (hL : IsUpperSet L) (hU : IsLowerSet U)
    (h : (L ∩ U).Nonempty) : L ∩ U ⊆ L' ∩ U' ↔ L ⊆ L' ∧ U ⊆ U' := by
  constructor
  · intro hsub
    obtain ⟨x, hxL, hxU⟩ := h
    constructor
    · -- what is not above `x` is in the interval, since `x` is
      intro y hy
      rcases le_total x y with hxy | hyx
      · exact hL' hxy (hsub ⟨hxL, hxU⟩).1
      · exact (hsub ⟨hy, hU hyx hxU⟩).1
    · intro y hy
      rcases le_total x y with hxy | hyx
      · exact (hsub ⟨hL hxy hxL, hy⟩).2
      · exact hU' hyx (hsub ⟨hxL, hxU⟩).2
  · rintro ⟨hlower, hupper⟩
    exact Set.inter_subset_inter hlower hupper

namespace Threshold

variable {t o n : Threshold}

/-- The values that a threshold accepts. -/
def accepted (t : Threshold) : Set ℚ := Side.lower.admitted t.lower ∩ Side.upper.admitted t.upper

lemma forall_mem_bounds {P : Binary64 → Prop} : (∀ x ∈ t.bounds, P x) ↔
    (∀ b ∈ t.lower, P b.value) ∧ ∀ b ∈ t.upper, P b.value := by
  simp only [bounds, List.forall_mem_map, List.forall_mem_append, Option.mem_toList, Option.mem_def]

lemma isEmpty_iff_of_bounds {l u : Bound} {v w : ℚ}
    (hv : l.value.value? = some (v : WithBotTop ℚ))
    (hw : u.value.value? = some (w : WithBotTop ℚ)) :
    isEmpty { lower := some l, upper := some u } = true ↔
      w < v ∨ v = w ∧ ¬ (l.inclusive = true ∧ u.inclusive = true) := by
  have below : u.value.below l.value = true ↔ w < v := by
    rw [Binary64.below_iff, hv, hw]
    simp [WithBotTop.coe_lt_coe]
  have same : l.value.same u.value = true ↔ v = w := by
    rw [Binary64.same_iff, hv, hw]
    simp [WithBotTop.coe_injective.eq_iff, eq_comm]
  rw [isEmpty, Bool.or_eq_true, Bool.and_eq_true, below, same, Bool.not_eq_true',
    ← Bool.not_eq_true, Bool.and_eq_true]

lemma mem_accepted_iff_of_bounds {l u : Bound} {v w x : ℚ}
    (hv : l.value.value? = some (v : WithBotTop ℚ))
    (hw : u.value.value? = some (w : WithBotTop ℚ)) :
    x ∈ accepted { lower := some l, upper := some u } ↔
      (v < x ∨ v = x ∧ l.inclusive = true) ∧ (x < w ∨ w = x ∧ u.inclusive = true) := by
  simp only [accepted, Side.admitted, Set.mem_inter_iff, Set.mem_ofPred_eq, Option.mem_some,
    forall_eq', Side.admits_iff hv, Side.admits_iff hw]
  rfl

/-- **A threshold is empty exactly if it accepts nothing.** -/
theorem isEmpty_iff (ht : ∀ x ∈ t.bounds, x.isFinite = true) :
    t.isEmpty = true ↔ ∀ x, x ∉ t.accepted := by
  obtain ⟨hlower, hupper⟩ := forall_mem_bounds.1 ht
  obtain ⟨_ | l, upper⟩ := t
  · obtain ⟨x, hx⟩ := Side.exists_mem_admitted .upper hupper
    exact iff_of_false (by simp [isEmpty]) fun h => h x ⟨fun b hb => absurd hb (by simp), hx⟩
  obtain _ | u := upper
  · obtain ⟨x, hx⟩ := Side.exists_mem_admitted .lower hlower
    exact iff_of_false (by simp [isEmpty]) fun h => h x ⟨hx, fun b hb => absurd hb (by simp)⟩
  obtain ⟨v, hv⟩ := Binary64.exists_rational (hlower l rfl)
  obtain ⟨w, hw⟩ := Binary64.exists_rational (hupper u rfl)
  simp only [isEmpty_iff_of_bounds hv hw, mem_accepted_iff_of_bounds hv hw]
  constructor
  · rintro (hwv | ⟨rfl, hopen⟩) x ⟨hl, hu⟩
    · have hvx : v ≤ x := hl.elim le_of_lt fun h => h.1.le
      have hxw : x ≤ w := hu.elim le_of_lt fun h => h.1.ge
      exact absurd (hvx.trans hxw) hwv.not_ge
    · rcases hl with hl | ⟨rfl, hl⟩
      · exact hu.elim (absurd hl ·.asymm) fun h => hl.ne h.1
      · exact hu.elim (lt_irrefl v) fun h => hopen ⟨hl, h.2⟩
  · intro h
    rcases lt_trichotomy v w with hvw | rfl | hwv
    · obtain ⟨x, hvx, hxw⟩ := exists_between hvw
      exact absurd ⟨.inl hvx, .inl hxw⟩ (h x)
    · exact .inr ⟨rfl, fun ⟨hl, hu⟩ => h v ⟨.inr ⟨rfl, hl⟩, .inr ⟨rfl, hu⟩⟩⟩
    · exact .inl hwv

/-- **One interval is within another one exactly if it accepts no more.** -/
theorem isWithin_relation_iff_subset (ho : ∀ x ∈ o.bounds, x.isFinite = true)
    (hn : ∀ x ∈ n.bounds, x.isFinite = true) (hempty : n.isEmpty = false) :
    (o.relation n).IsWithin ↔ n.accepted ⊆ o.accepted := by
  obtain ⟨holower, houpper⟩ := forall_mem_bounds.1 ho
  obtain ⟨hnlower, hnupper⟩ := forall_mem_bounds.1 hn
  have hvalue : n.accepted.Nonempty := by
    rw [← Bool.not_eq_true, isEmpty_iff hn, not_forall_not] at hempty
    exact hempty
  rw [relation, Relation.isWithin_combine, Side.isWithin_relation_iff_subset holower hnlower,
    Side.isWithin_relation_iff_subset houpper hnupper]
  exact (inter_subset_inter_iff (Side.isUpperSet_admitted _) (Side.isLowerSet_admitted _)
    (Side.isUpperSet_admitted _) (Side.isLowerSet_admitted _) hvalue).symm

/-- **The relation of thresholds is exact.**  Over the rationals, and with finite bounds, a
threshold is empty exactly if it accepts no value, and the relation of two that are not empty is
the one of the sets that they accept. -/
theorem relation_exact (ho : ∀ x ∈ o.bounds, x.isFinite = true)
    (hn : ∀ x ∈ n.bounds, x.isFinite = true) :
    (o.isEmpty = true ↔ ∀ x, x ∉ o.accepted) ∧
    (o.isEmpty = false → n.isEmpty = false →
      (o.relation n = .equal ↔ o.accepted = n.accepted) ∧
      (o.relation n = .narrower ↔ n.accepted ⊂ o.accepted) ∧
      (o.relation n = .wider ↔ o.accepted ⊂ n.accepted) ∧
      (o.relation n = .incomparable ↔
        ¬ n.accepted ⊆ o.accepted ∧ ¬ o.accepted ⊆ n.accepted)) := by
  refine ⟨isEmpty_iff ho, fun hoempty hnempty => ?_⟩
  have within := isWithin_relation_iff_subset ho hn hnempty
  have reverse : (o.relation n).reverse.IsWithin ↔ o.accepted ⊆ n.accepted := by
    rw [← isInclusion_relation.reverse]
    exact isWithin_relation_iff_subset hn ho hoempty
  rw [Relation.eq_equal_iff, Relation.eq_narrower_iff, Relation.eq_wider_iff,
    Relation.eq_incomparable_iff, within, reverse]
  refine ⟨?_, Iff.rfl, ?_, Iff.rfl⟩
  · rw [and_comm, Set.Subset.antisymm_iff]
  · exact and_comm

/-- Without its lower end an interval from a half to ten, the ten apart, has lost a value. -/
theorem relation_exact_of_open_end :
    let below (inclusive : Bool) : Threshold :=
      { lower := some ⟨.finite false 1 (-1), inclusive⟩
        upper := some ⟨.finite false 10 0, false⟩ }
    (below true).isEmpty = false ∧ (below false).isEmpty = false ∧
      (below true).relation (below false) = .narrower ∧
      (below false).accepted ⊂ (below true).accepted := by
  intro below
  have finite : ∀ i, ∀ x ∈ (below i).bounds, x.isFinite = true := by simp [below, bounds]; decide
  have relations := (relation_exact (finite true) (finite false)).2 (by decide) (by decide)
  have narrower : (below true).relation (below false) = .narrower := by decide
  exact ⟨by decide, by decide, narrower, relations.2.1.1 narrower⟩

end Threshold

/-! ## Constraints -/

/-- What constraints look at in a value of any kind, and what their texts mean. -/
structure Interpretation (α : Type u) where
  length : α → ℕ
  number : α → ℚ
  /-- The canonical text, as allowed values are written. -/
  text : α → String
  fitsPattern : String → α → Prop
  hasFormat : String → α → Prop

/-- The value satisfies each keyword that is set. -/
structure Constraints.Accepts {α : Type u} (c : Constraints) (meaning : Interpretation α) (a : α) :
    Prop where
  minLength : ∀ l ∈ c.minLength, l ≤ meaning.length a
  maxLength : ∀ l ∈ c.maxLength, meaning.length a ≤ l
  pattern : ∀ p ∈ c.pattern, meaning.fitsPattern p a
  format : ∀ f ∈ c.format, meaning.hasFormat f a
  minimum : ∀ m ∈ c.minimum, ∃ x ∈ m.value?, x ≤ meaning.number a
  maximum : ∀ m ∈ c.maximum, ∃ x ∈ m.value?, meaning.number a ≤ x
  exclusiveMinimum : ∀ m ∈ c.exclusiveMinimum, ∃ x ∈ m.value?, x < meaning.number a
  exclusiveMaximum : ∀ m ∈ c.exclusiveMaximum, ∃ x ∈ m.value?, meaning.number a < x
  allowed : ∀ s ∈ c.allowed, meaning.text a ∈ s

namespace Constraints

variable {side : Side} {inclusive exclusive : Option Binary64} {x : ℚ}

/-- **The effective bound accepts what both keywords accept.** -/
lemma mem_admitted_effectiveBound_iff (hinclusive : ∀ m ∈ inclusive, m ≠ .nan)
    (hexclusive : ∀ m ∈ exclusive, m ≠ .nan) :
    x ∈ side.admitted (effectiveBound side inclusive exclusive) ↔
      (∀ m ∈ inclusive, side.Admits ⟨m, true⟩ x) ∧ ∀ m ∈ exclusive, side.Admits ⟨m, false⟩ x := by
  have bound : x ∈ side.admitted (inclusive.map (⟨·, true⟩)) ↔
      ∀ m ∈ inclusive, side.Admits ⟨m, true⟩ x := by
    cases inclusive <;> simp [Side.admitted]
  rw [← bound]
  cases exclusive with
  | none => simp [effectiveBound]
  | some e =>
      have hbound : ∀ b ∈ inclusive.map (⟨·, true⟩ : Binary64 → Bound), b.value ≠ .nan := by
        simpa using hinclusive
      simpa [effectiveBound] using Side.mem_admitted_tighter_iff hbound (hexclusive e rfl)

variable {c o n : Constraints}

/-- The effective lower bound accepts what `minimum` and `exclusiveMinimum` accept. -/
lemma mem_admitted_lowerBound_iff (hc : ∀ m ∈ c.bounds, m ≠ .nan) :
    x ∈ Side.lower.admitted c.lowerBound ↔
      (∀ m ∈ c.minimum, ∃ v ∈ m.value?, v ≤ (x : WithBotTop ℚ)) ∧
        ∀ m ∈ c.exclusiveMinimum, ∃ v ∈ m.value?, v < (x : WithBotTop ℚ) := by
  obtain ⟨minimum, _, exclusiveMinimum, _⟩ := forall_mem_bounds.1 hc
  rw [lowerBound, mem_admitted_effectiveBound_iff minimum exclusiveMinimum]
  simp only [Side.admits_lower_inclusive, Side.admits_lower_exclusive]

/-- The effective upper bound accepts what `maximum` and `exclusiveMaximum` accept. -/
lemma mem_admitted_upperBound_iff (hc : ∀ m ∈ c.bounds, m ≠ .nan) :
    x ∈ Side.upper.admitted c.upperBound ↔
      (∀ m ∈ c.maximum, ∃ v ∈ m.value?, (x : WithBotTop ℚ) ≤ v) ∧
        ∀ m ∈ c.exclusiveMaximum, ∃ v ∈ m.value?, (x : WithBotTop ℚ) < v := by
  obtain ⟨_, maximum, _, exclusiveMaximum⟩ := forall_mem_bounds.1 hc
  rw [upperBound, mem_admitted_effectiveBound_iff maximum exclusiveMaximum]
  simp only [Side.admits_upper_inclusive, Side.admits_upper_exclusive]

variable {α : Type u} {meaning : Interpretation α} {a : α}

/-- **Constraints that are within others accept no more.** -/
theorem Accepts.of_isWithin (ho : ∀ m ∈ o.bounds, m ≠ .nan) (hn : ∀ m ∈ n.bounds, m ≠ .nan)
    (h : (o.relation n).IsWithin) (ha : n.Accepts meaning a) : o.Accepts meaning a := by
  obtain ⟨minLength, maxLength, pattern, format, lower, upper, allowed⟩ := isWithin_relation.1 h
  have hlower := Side.admitted_subset_of_isWithin lower
    ((mem_admitted_lowerBound_iff hn).2 ⟨ha.minimum, ha.exclusiveMinimum⟩)
  have hupper := Side.admitted_subset_of_isWithin upper
    ((mem_admitted_upperBound_iff hn).2 ⟨ha.maximum, ha.exclusiveMaximum⟩)
  rw [mem_admitted_lowerBound_iff ho] at hlower
  rw [mem_admitted_upperBound_iff ho] at hupper
  exact {
    minLength := by
      intro l hl
      obtain ⟨m, hm, hlm⟩ := minLength l hl
      exact hlm.trans (ha.minLength m hm)
    maxLength := by
      intro l hl
      obtain ⟨m, hm, hml⟩ := maxLength l hl
      exact (ha.maxLength m hm).trans hml
    pattern := fun p hp => ha.pattern p (pattern p hp)
    format := fun f hf => ha.format f (format f hf)
    minimum := hlower.1
    maximum := hupper.1
    exclusiveMinimum := hlower.2
    exclusiveMaximum := hupper.2
    allowed := by
      intro s hs
      obtain ⟨t, ht, hts⟩ := allowed s hs
      exact hts _ (ha.allowed t ht) }

/-- **The relation of constraints is sound.**  Whatever patterns and formats mean, narrower
constraints accept no value that the old ones do not, wider ones all that the old ones do, and equal
ones the same values. -/
theorem relation_sound (meaning : Interpretation α) (ho : ∀ m ∈ o.bounds, m ≠ .nan)
    (hn : ∀ m ∈ n.bounds, m ≠ .nan) :
    (o.relation n = .narrower → ∀ a, n.Accepts meaning a → o.Accepts meaning a) ∧
    (o.relation n = .wider → ∀ a, o.Accepts meaning a → n.Accepts meaning a) ∧
    (o.relation n = .equal → ∀ a, o.Accepts meaning a ↔ n.Accepts meaning a) := by
  have forth : (o.relation n).IsWithin → ∀ a, n.Accepts meaning a → o.Accepts meaning a :=
    fun h _ => Accepts.of_isWithin ho hn h
  have back : (o.relation n).reverse.IsWithin → ∀ a, o.Accepts meaning a → n.Accepts meaning a := by
    rw [← isInclusion_relation.reverse]
    exact fun h _ => Accepts.of_isWithin hn ho h
  refine ⟨fun h => forth (.inr h), fun h => back ?_, fun h a => ⟨back ?_ a, forth (.inl h) a⟩⟩
  · rw [h]
    exact .inr rfl
  · rw [h]
    exact .inl rfl

/-- Of five and six, which are at least one half, five is left, with a limit of minus one that has
no effect beside the one that excludes one half. -/
theorem relation_sound_of_exclusive_minimum :
    let words : Interpretation ℕ :=
      { length := fun n => n, number := fun n => n, text := toString,
        fitsPattern := fun p n => p = toString n, hasFormat := fun _ n => n ≠ 7 }
    let old : Constraints :=
      { minimum := some (.finite false 1 (-1)), maxLength := some 6,
        allowed := some (.ofList ["5", "6"]) }
    let new : Constraints :=
      { minimum := some (.finite true 1 0), exclusiveMinimum := some (.finite false 1 (-1)),
        maxLength := some 5, format := some "short", allowed := some (.ofList ["5"]) }
    old.relation new = .narrower ∧ new.Accepts words 5 ∧ old.Accepts words 5 := by
  intro words old new
  have narrower : old.relation new = .narrower := by decide
  have sound := relation_sound (o := old) (n := new) words (by decide) (by decide)
  have lower : Binary64.rational true 1 0 ≤ 5 := by
    norm_num [Binary64.rational, Binary64.signed]
  have half : Binary64.rational false 1 (-1) < 5 := by
    norm_num [Binary64.rational, Binary64.signed]
  have accepts : new.Accepts words 5 := {
    minLength := by simp [new]
    maxLength := by simp [new, words]
    pattern := by simp [new]
    format := by simp [new, words]
    minimum := by
      rintro _ ⟨⟩
      exact ⟨_, rfl, WithBotTop.coe_le_coe.2 lower⟩
    maximum := by simp [new]
    exclusiveMinimum := by
      rintro _ ⟨⟩
      exact ⟨_, rfl, WithBotTop.coe_lt_coe.2 half⟩
    exclusiveMaximum := by simp [new]
    allowed := by
      rintro _ ⟨⟩
      exact Members.mem_ofList.2 (List.mem_singleton.2 rfl) }
  exact ⟨narrower, accepts, sound.1 narrower 5 accepts⟩

end Constraints

end ContractDrift
