import ContractDrift.Proofs.Agreement
import Mathlib.Order.Compare

/-!
# Narrowing as an order

A relation between an old and a new set of values is two answers in one: whether the new set lies
within the old one, and whether the old one lies within the new one.  Sides are combined by taking
both answers on their own, so that nothing is lost where one side is narrower and another one wider,
and every law of an order that holds on each side holds of constraints and thresholds.

* `Relation.IsWithin` — the first of the two answers; `Relation.reverse` gives the second one.
* `Relation.isWithin_combine`, `Relation.isWithin_all` — sides are within together if each one is.
* `Relation.IsInclusion` — a comparison that behaves like inclusion: it finds a description equal
  to itself, turns round with its arguments, and chains.  `ofOptional`, `comap` and `all` build such
  comparisons from others.
* `Side.IsOuter`, `Side.isWithin_compare` — a bound is within another one if it stands further in.
* **`Constraints.isInclusion_relation`**, **`Threshold.isInclusion_relation`** — both relations are
  inclusions, for bounds that are numbers.
-/

namespace ContractDrift

universe u v

namespace Relation

variable {r s : Relation}

/-- The new set lies within the old one. -/
def IsWithin (r : Relation) : Prop := r = .equal ∨ r = .narrower

instance : DecidablePred IsWithin := fun r =>
  inferInstanceAs (Decidable (r = .equal ∨ r = .narrower))

lemma reverse_reverse (r : Relation) : r.reverse.reverse = r := by
  cases r <;> rfl

lemma eq_equal_iff : r = .equal ↔ r.IsWithin ∧ r.reverse.IsWithin := by
  cases r <;> decide

lemma eq_narrower_iff : r = .narrower ↔ r.IsWithin ∧ ¬ r.reverse.IsWithin := by
  cases r <;> decide

lemma eq_wider_iff : r = .wider ↔ ¬ r.IsWithin ∧ r.reverse.IsWithin := by
  cases r <;> decide

lemma eq_incomparable_iff : r = .incomparable ↔ ¬ r.IsWithin ∧ ¬ r.reverse.IsWithin := by
  cases r <;> decide

/-! ## Several sides -/

/-- **Two sides are within exactly if each one is.** -/
theorem isWithin_combine : (r.combine s).IsWithin ↔ r.IsWithin ∧ s.IsWithin := by
  cases r <;> cases s <;> decide

lemma foldl_combine (sides : List Relation) (r : Relation) :
    sides.foldl combine r = r.combine (all sides) := by
  induction sides generalizing r with
  | nil => cases r <;> rfl
  | cons s sides ih =>
      have first : all (s :: sides) = s.combine (all sides) := ih s
      rw [List.foldl_cons, ih, first, combine_assoc]

lemma all_cons (r : Relation) (sides : List Relation) : all (r :: sides) = r.combine (all sides) :=
  foldl_combine sides r

/-- **Any number of sides is within exactly if each one is.** -/
theorem isWithin_all {sides : List Relation} : (all sides).IsWithin ↔ ∀ r ∈ sides, r.IsWithin := by
  induction sides with
  | nil => exact iff_of_true (.inl rfl) (by simp)
  | cons r sides ih => rw [all_cons, isWithin_combine, ih, List.forall_mem_cons]

/-! ## Comparisons that behave like inclusion -/

/-- A way to compare descriptions of sets that behaves like the inclusion of the sets.  What is not
definite need not be equal to itself. -/
structure IsInclusion {α : Type u} (definite : α → Prop) (relate : α → α → Relation) : Prop where
  self : ∀ a, definite a → relate a a = .equal
  reverse : ∀ a b, relate b a = (relate a b).reverse
  trans : ∀ a b c, (relate a b).IsWithin → (relate b c).IsWithin → (relate a c).IsWithin

namespace IsInclusion

variable {α : Type u} {β : Type v} {definite : α → Prop} {relate : α → α → Relation} {a b c : α}

/-- **A chain is equal only if both of its links are.** -/
theorem equal_of_trans (h : IsInclusion definite relate) (hab : (relate a b).IsWithin)
    (hbc : (relate b c).IsWithin) (hac : relate a c = .equal) :
    relate a b = .equal ∧ relate b c = .equal := by
  -- the chain leads back from its end to its beginning
  have hca : (relate c a).IsWithin := by rw [h.reverse a c, hac]; exact .inl rfl
  have hba : (relate b a).IsWithin := h.trans b c a hbc hca
  have hcb : (relate c b).IsWithin := h.trans c a b hca hab
  rw [eq_equal_iff, eq_equal_iff, ← h.reverse, ← h.reverse]
  exact ⟨⟨hab, hba⟩, hbc, hcb⟩

lemma mono {definite' : α → Prop} (h : IsInclusion definite relate)
    (sub : ∀ a, definite' a → definite a) : IsInclusion definite' relate :=
  ⟨fun a ha => h.self a (sub a ha), h.reverse, h.trans⟩

/-- To compare what is read off two descriptions. -/
lemma comap (h : IsInclusion definite relate) (read : β → α) :
    IsInclusion (fun b => definite (read b)) fun old new => relate (read old) (read new) :=
  ⟨fun b => h.self (read b), fun a b => h.reverse (read a) (read b),
    fun a b c => h.trans (read a) (read b) (read c)⟩

/-- To compare on two sides. -/
lemma combine {other : α → α → Relation} (h : IsInclusion definite relate)
    (h' : IsInclusion definite other) :
    IsInclusion definite fun old new => (relate old new).combine (other old new) where
  self := by
    intro a ha
    rw [h.self a ha, h'.self a ha]
    rfl
  reverse := by
    intro a b
    rw [h.reverse, h'.reverse, reverse_combine]
  trans := by
    intro a b c hab hbc
    rw [isWithin_combine] at *
    exact ⟨h.trans a b c hab.1 hbc.1, h'.trans a b c hab.2 hbc.2⟩

/-- To compare on any number of sides. -/
lemma all {sides : List (α → α → Relation)} (h : ∀ relate ∈ sides, IsInclusion definite relate) :
    IsInclusion definite
      fun old new => Relation.all (sides.map fun relate => relate old new) := by
  induction sides with
  | nil => exact ⟨fun _ _ => rfl, fun _ _ => rfl, fun _ _ _ _ _ => .inl rfl⟩
  | cons relate sides ih =>
      obtain ⟨first, rest⟩ := List.forall_mem_cons.1 h
      simp only [List.map_cons, all_cons]
      exact first.combine (ih rest)

end IsInclusion

/-! ## Sides that may be missing -/

section Optional

variable {α : Type} {definite : α → Prop} {relate : α → α → Relation} {old new : Option α}

/-- **A side is within if all that was demanded still is, in a way that is within.** -/
theorem isWithin_ofOptional : (ofOptional relate old new).IsWithin ↔
    ∀ a ∈ old, ∃ b ∈ new, (relate a b).IsWithin := by
  cases old <;> cases new <;> simp [ofOptional, IsWithin]

lemma IsInclusion.ofOptional (h : IsInclusion definite relate) :
    IsInclusion (fun side => ∀ a ∈ side, definite a) (Relation.ofOptional relate) where
  self := by
    rintro (_ | a) ha
    · rfl
    · exact h.self a (ha a rfl)
  reverse := by
    rintro (_ | a) (_ | b)
    · rfl
    · rfl
    · rfl
    · exact h.reverse a b
  trans := by
    intro old between new hold hnew
    rw [isWithin_ofOptional] at *
    intro a ha
    obtain ⟨b, hb, hab⟩ := hold a ha
    obtain ⟨c, hc, hbc⟩ := hnew b hb
    exact ⟨c, hc, h.trans a b c hab hbc⟩

end Optional

/-! ## Lengths -/

lemma isWithin_ofOrdering {α : Type} [LinearOrder α] {a b : α} :
    (ofOrdering (some (compare b a))).IsWithin ↔ a ≤ b := by
  rcases lt_trichotomy a b with h | rfl | h
  · rw [compare_gt_iff_gt.2 h]
    exact iff_of_true (.inr rfl) h.le
  · rw [compare_eq_iff_eq.2 rfl]
    exact iff_of_true (.inl rfl) le_rfl
  · rw [compare_lt_iff_lt.2 h]
    exact iff_of_false (by decide) h.not_ge

lemma ofOrdering_swap (o : Ordering) :
    ofOrdering (some o.swap) = (ofOrdering (some o)).reverse := by
  cases o <;> rfl

/-- A greater lower limit is within. -/
lemma isInclusion_atLeast : IsInclusion (fun _ : ℕ => True)
    fun old new => ofOrdering (some (compare new old)) where
  self := by
    intro a _
    rw [compare_eq_iff_eq.2 rfl]
    rfl
  reverse := by
    intro a b
    have swap : compare a b = (compare b a).swap := Std.OrientedCmp.eq_swap
    rw [← ofOrdering_swap, swap]
  trans := by
    intro a b c hab hbc
    rw [isWithin_ofOrdering] at *
    exact hab.trans hbc

/-- A lesser upper limit is within. -/
lemma isInclusion_atMost : IsInclusion (fun _ : ℕ => True)
    fun old new => ofOrdering (some (compare old new)) where
  self := isInclusion_atLeast.self
  reverse := fun a b => isInclusion_atLeast.reverse b a
  trans := by
    intro a b c hab hbc
    rw [isWithin_ofOrdering] at *
    exact hbc.trans hab

/-! ## Opaque restrictions -/

lemma isWithin_ite_eq {α : Type} [DecidableEq α] {a b : α} :
    (if a = b then equal else incomparable).IsWithin ↔ a = b := by
  by_cases h : a = b <;> simp [h, IsWithin]

lemma isInclusion_ite_eq {α : Type} [DecidableEq α] :
    IsInclusion (fun _ : α => True) fun old new => if old = new then equal else incomparable where
  self := fun a _ => if_pos rfl
  reverse := by
    intro a b
    by_cases h : a = b
    · rw [if_pos h, if_pos h.symm]
      rfl
    · rw [if_neg h, if_neg (Ne.symm h)]
      rfl
  trans := by
    intro a b c hab hbc
    rw [isWithin_ite_eq] at *
    exact hab.trans hbc

end Relation

/-! ## Bounds -/

lemma Binary64.below_iff {a b : Binary64} :
    a.below b = true ↔ ∃ x ∈ a.value?, ∃ y ∈ b.value?, x < y := by
  rw [below, beq_iff_eq, order_eq]
  cases a.value? with
  | none =>
      rw [Option.map₂_none_left]
      simp
  | some x =>
      cases b.value? with
      | none =>
          rw [Option.map₂_none_right]
          simp
      | some y =>
          rw [Option.map₂_some_some, Option.some_inj, cmp_eq_lt_iff]
          simp

lemma Binary64.exists_value?_eq {a : Binary64} (h : a ≠ .nan) : ∃ x, a.value? = some x :=
  Option.ne_none_iff_exists'.1 (mt value?_eq_none_iff.1 h)

namespace Side

/-- On the side of an interval `x` stands further out than `y`. -/
def IsOuter {α : Type u} [LT α] (side : Side) (x y : α) : Prop :=
  match side with
  | .lower => x < y
  | .upper => y < x

section Outer

variable {α : Type u} [LinearOrder α] {side : Side} {x y z : α}

lemma IsOuter.trans (hxy : side.IsOuter x y) (hyz : side.IsOuter y z) : side.IsOuter x z := by
  cases side
  · exact lt_trans (a := x) hxy hyz
  · exact lt_trans (a := z) hyz hxy

lemma not_isOuter_self : ¬ side.IsOuter x x := by
  cases side <;> exact lt_irrefl x

lemma IsOuter.not_isOuter (h : side.IsOuter x y) : ¬ side.IsOuter y x :=
  fun h' => not_isOuter_self (h.trans h')

lemma IsOuter.ne (h : side.IsOuter x y) : x ≠ y := by
  rintro rfl
  exact not_isOuter_self h

lemma isOuter_trichotomy (side : Side) (x y : α) :
    side.IsOuter x y ∨ x = y ∨ side.IsOuter y x := by
  cases side
  · exact lt_trichotomy x y
  · rcases lt_trichotomy x y with h | h | h
    · exact .inr (.inr h)
    · exact .inr (.inl h)
    · exact .inl h

end Outer

variable {side : Side} {a b : Bound}

/-- **A bound is within another one if it stands further in**, or at the same number and accepts it
only if the other one does. -/
theorem isWithin_compare : (side.compare a b).IsWithin ↔
    ∃ x ∈ a.value.value?, ∃ y ∈ b.value.value?,
      side.IsOuter x y ∨ x = y ∧ (b.inclusive = true → a.inclusive = true) := by
  rw [compare.eq_def, Binary64.order_eq]
  cases a.value.value? with
  | none =>
      rw [Option.map₂_none_left]
      simp [Relation.IsWithin]
  | some x =>
      cases b.value.value? with
      | none =>
          rw [Option.map₂_none_right]
          simp [Relation.IsWithin]
      | some y =>
          rw [Option.map₂_some_some]
          rcases lt_trichotomy x y with h | rfl | h
          · rw [(cmp_eq_lt_iff x y).2 h]
            cases side <;> simp [Relation.IsWithin, IsOuter, h, h.not_gt, h.ne]
          · rw [cmp_self_eq_eq]
            cases a.inclusive <;> cases b.inclusive <;>
              simp [Relation.IsWithin, not_isOuter_self]
          · rw [(cmp_eq_gt_iff x y).2 h]
            cases side <;> simp [Relation.IsWithin, IsOuter, h, h.not_gt, h.ne']

lemma compare_reverse (side : Side) (a b : Bound) :
    side.compare b a = (side.compare a b).reverse := by
  simp only [compare.eq_def, Binary64.order_swap b.value a.value]
  rcases a.value.order b.value with _ | (_ | _ | _)
  · rfl
  · cases side <;> rfl
  · cases a.inclusive <;> cases b.inclusive <;> rfl
  · cases side <;> rfl

lemma isInclusion_compare (side : Side) :
    Relation.IsInclusion (fun b : Bound => b.value ≠ .nan) side.compare where
  self := by
    intro a ha
    obtain ⟨x, hx⟩ := Option.ne_none_iff_exists'.1 (mt Binary64.value?_eq_none_iff.1 ha)
    have within : (side.compare a a).IsWithin := isWithin_compare.2 ⟨x, hx, x, hx, .inr ⟨rfl, id⟩⟩
    rw [Relation.eq_equal_iff, ← compare_reverse]
    exact ⟨within, within⟩
  reverse := compare_reverse side
  trans := by
    intro a b c hab hbc
    rw [isWithin_compare] at *
    obtain ⟨x, hx, y, hy, hxy⟩ := hab
    obtain ⟨y', hy', z, hz, hyz⟩ := hbc
    obtain rfl : y = y' := Option.some.inj (hy.symm.trans hy')
    refine ⟨x, hx, z, hz, ?_⟩
    rcases hxy with hxy | ⟨rfl, hba⟩
    · rcases hyz with hyz | ⟨rfl, _⟩
      · exact .inl (hxy.trans hyz)
      · exact .inl hxy
    · rcases hyz with hyz | ⟨rfl, hcb⟩
      · exact .inl hyz
      · exact .inr ⟨rfl, fun hc => hba (hcb hc)⟩

lemma isInclusion_relation (side : Side) :
    Relation.IsInclusion (fun bound : Option Bound => ∀ b ∈ bound, b.value ≠ .nan)
      side.relation :=
  (isInclusion_compare side).ofOptional

/-- **A side of an interval is within if its bound is.** -/
theorem isWithin_relation {old new : Option Bound} : (side.relation old new).IsWithin ↔
    ∀ a ∈ old, ∃ b ∈ new, (side.compare a b).IsWithin :=
  Relation.isWithin_ofOptional

/-! ### The tighter of two bounds -/

variable {current : Option Bound} {candidate : Bound}

lemma tightens_iff {x y : Binary64} : side.tightens x y = true ↔
    ∃ v ∈ x.value?, ∃ w ∈ y.value?, side.IsOuter v w := by
  cases side
  · exact Binary64.below_iff
  · refine Binary64.below_iff.trans ?_
    exact ⟨fun ⟨w, hw, v, hv, h⟩ => ⟨v, hv, w, hw, h⟩, fun ⟨v, hv, w, hw, h⟩ => ⟨w, hw, v, hv, h⟩⟩

/-- It is one of the two. -/
lemma tighter_eq_or (side : Side) (current : Option Bound) (candidate : Bound) :
    side.tighter current candidate = current ∨ side.tighter current candidate = some candidate := by
  cases current with
  | none => exact .inr rfl
  | some current => exact (ite_eq_or_eq _ _ _).imp (congrArg some) (congrArg some)

lemma tighter_ne_nan (hcurrent : ∀ b ∈ current, b.value ≠ .nan)
    (hcandidate : candidate.value ≠ .nan) :
    ∀ b ∈ side.tighter current candidate, b.value ≠ .nan := by
  rcases tighter_eq_or side current candidate with h | h <;> rw [h]
  · exact hcurrent
  · rintro _ ⟨⟩
    exact hcandidate

/-- **It is within both.** -/
lemma isWithin_tighter (hcurrent : ∀ b ∈ current, b.value ≠ .nan)
    (hcandidate : candidate.value ≠ .nan) :
    (side.relation current (side.tighter current candidate)).IsWithin ∧
      (side.relation (some candidate) (side.tighter current candidate)).IsWithin := by
  have self : ∀ {b : Bound}, b.value ≠ .nan → (side.compare b b).IsWithin :=
    fun hb => .inl ((isInclusion_compare side).self _ hb)
  cases current with
  | none => exact ⟨.inr rfl, self hcandidate⟩
  | some current =>
      have hcurrent := hcurrent current rfl
      obtain ⟨v, hv⟩ := Binary64.exists_value?_eq hcurrent
      obtain ⟨w, hw⟩ := Binary64.exists_value?_eq hcandidate
      have same : current.value.same candidate.value = decide (v = w) := by
        rw [Bool.eq_iff_iff, Binary64.same_iff_value?_eq hcurrent, hv, hw]
        simp
      have tightens : side.tightens candidate.value current.value = true ↔ side.IsOuter w v := by
        rw [tightens_iff, hv, hw]
        simp
      rcases isOuter_trichotomy side v w with h | rfl | h
      · have loose := Bool.eq_false_of_not_eq_true (mt tightens.1 h.not_isOuter)
        have taken : side.tighter (some current) candidate = some candidate := by
          simp [tighter, same, h.ne, loose]
        rw [taken]
        exact ⟨isWithin_compare.2 ⟨v, hv, w, hw, .inl h⟩, self hcandidate⟩
      · -- at the same number the bound that does not accept it is tighter
        cases hinclusive : current.inclusive with
        | true =>
            have taken : side.tighter (some current) candidate = some candidate := by
              simp [tighter, same, hinclusive]
            rw [taken]
            exact ⟨isWithin_compare.2 ⟨v, hv, v, hw, .inr ⟨rfl, fun _ => hinclusive⟩⟩,
              self hcandidate⟩
        | false =>
            have kept : side.tighter (some current) candidate = some current := by
              simp [tighter, same, hinclusive]
            rw [kept]
            exact ⟨self hcurrent,
              isWithin_compare.2 ⟨v, hw, v, hv, .inr ⟨rfl, by simp [hinclusive]⟩⟩⟩
      · have kept : side.tighter (some current) candidate = some current := by
          simp [tighter, same, h.ne.symm, tightens.2 h]
        rw [kept]
        exact ⟨self hcurrent, isWithin_compare.2 ⟨w, hw, v, hv, .inl h⟩⟩

end Side

/-! ## Thresholds and constraints -/

/-- **The relation of thresholds behaves like inclusion.** -/
theorem Threshold.isInclusion_relation :
    Relation.IsInclusion (fun t : Threshold => ∀ x ∈ t.bounds, x ≠ .nan) Threshold.relation := by
  have lower := (Side.isInclusion_relation .lower).comap Threshold.lower
  have upper := (Side.isInclusion_relation .upper).comap Threshold.upper
  refine .combine (lower.mono fun t ht b hb => ht _ ?_) (upper.mono fun t ht b hb => ht _ ?_)
  · exact List.mem_map_of_mem (List.mem_append_left _ (Option.mem_toList.2 hb))
  · exact List.mem_map_of_mem (List.mem_append_right _ (Option.mem_toList.2 hb))

namespace Constraints

lemma isSubset_iff {s t : Members String} : s.isSubset t = true ↔ ∀ a ∈ s, a ∈ t := by
  simp only [Members.isSubset, List.all_eq_true, List.contains_iff_mem]
  rfl

/-- A set of allowed values is within another one if it is a part of it. -/
lemma isWithin_relationOfAllowed {old new : Members String} :
    (relationOfAllowed old new).IsWithin ↔ ∀ a ∈ new, a ∈ old := by
  rw [← isSubset_iff]
  by_cases heq : old = new
  · subst heq
    exact iff_of_true (by simp [relationOfAllowed, Relation.IsWithin]) (isSubset_iff.2 fun _ => id)
  · cases hsub : new.isSubset old
    · cases hsup : old.isSubset new <;>
        simp [relationOfAllowed, heq, hsub, hsup, Relation.IsWithin]
    · simp [relationOfAllowed, heq, hsub, Relation.IsWithin]

lemma relationOfAllowed_reverse (s t : Members String) :
    relationOfAllowed t s = (relationOfAllowed s t).reverse := by
  by_cases heq : s = t
  · subst heq
    simp [relationOfAllowed, Relation.reverse]
  · have both : ¬ (t.isSubset s = true ∧ s.isSubset t = true) := by
      rintro ⟨h, h'⟩
      exact heq (Members.ext_mem fun a => ⟨isSubset_iff.1 h' a, isSubset_iff.1 h a⟩)
    cases hsub : t.isSubset s <;> cases hsup : s.isSubset t <;>
      simp_all [relationOfAllowed, Relation.reverse, Ne.symm heq]

lemma isInclusion_relationOfAllowed :
    Relation.IsInclusion (fun _ : Members String => True) relationOfAllowed where
  self := fun s _ => if_pos rfl
  reverse := relationOfAllowed_reverse
  trans := by
    intro s t u hst htu
    rw [isWithin_relationOfAllowed] at *
    exact fun a ha => hst a (htu a ha)

/-! ### Effective bounds -/

variable {side : Side} {inclusive exclusive : Option Binary64}

/-- The effective bound is one of the two that are declared. -/
lemma effectiveBound_eq_or (side : Side) (inclusive exclusive : Option Binary64) :
    effectiveBound side inclusive exclusive = inclusive.map (⟨·, true⟩) ∨
      effectiveBound side inclusive exclusive = exclusive.map (⟨·, false⟩) := by
  cases exclusive with
  | none => exact .inl rfl
  | some e => exact side.tighter_eq_or _ _

/-- What holds of the values that are declared holds of the one of the effective bound. -/
lemma forall_mem_effectiveBound {P : Binary64 → Prop} (hinclusive : ∀ x ∈ inclusive, P x)
    (hexclusive : ∀ x ∈ exclusive, P x) :
    ∀ b ∈ effectiveBound side inclusive exclusive, P b.value := by
  rcases effectiveBound_eq_or side inclusive exclusive with h | h <;> rw [h]
  · simpa using hinclusive
  · simpa using hexclusive

/-! ### The relation -/

/-- The sides of constraints. -/
def sides : List (Constraints → Constraints → Relation) := [
  fun old new => Relation.ofLower (fun a b => some (compare a b)) old.minLength new.minLength,
  fun old new => Relation.ofUpper (fun a b => some (compare a b)) old.maxLength new.maxLength,
  fun old new => Relation.ofRestriction old.pattern new.pattern,
  fun old new => Relation.ofRestriction old.format new.format,
  fun old new => Side.lower.relation old.lowerBound new.lowerBound,
  fun old new => Side.upper.relation old.upperBound new.upperBound,
  fun old new => Relation.ofOptional relationOfAllowed old.allowed new.allowed]

lemma relation_eq_all (old new : Constraints) :
    old.relation new = Relation.all (sides.map fun relate => relate old new) := rfl

lemma forall_mem_bounds {c : Constraints} {P : Binary64 → Prop} : (∀ x ∈ c.bounds, P x) ↔
    (∀ x ∈ c.minimum, P x) ∧ (∀ x ∈ c.maximum, P x) ∧ (∀ x ∈ c.exclusiveMinimum, P x) ∧
      ∀ x ∈ c.exclusiveMaximum, P x := by
  simp only [bounds, List.forall_mem_append, Option.mem_toList, Option.mem_def, and_assoc]

/-- **The relation of constraints behaves like inclusion.** -/
theorem isInclusion_relation :
    Relation.IsInclusion (fun c : Constraints => ∀ x ∈ c.bounds, x ≠ .nan)
      Constraints.relation := by
  have lengths := Relation.isInclusion_atLeast.ofOptional.comap minLength
  have lengths' := Relation.isInclusion_atMost.ofOptional.comap maxLength
  have patterns := Relation.isInclusion_ite_eq.ofOptional.comap pattern
  have formats := Relation.isInclusion_ite_eq.ofOptional.comap format
  have lower := (Side.isInclusion_relation .lower).comap lowerBound
  have upper := (Side.isInclusion_relation .upper).comap upperBound
  have allowed := isInclusion_relationOfAllowed.ofOptional.comap allowed
  suffices h : ∀ relate ∈ sides, Relation.IsInclusion
      (fun c : Constraints => ∀ x ∈ c.bounds, x ≠ .nan) relate from .all h
  simp only [sides, List.forall_mem_cons, List.not_mem_nil, false_implies, implies_true, and_true]
  refine ⟨lengths.mono ?_, lengths'.mono ?_, patterns.mono ?_, formats.mono ?_, lower.mono ?_,
    upper.mono ?_, allowed.mono ?_⟩
  case refine_5 =>
    intro c hc
    obtain ⟨minimum, _, exclusiveMinimum, _⟩ := forall_mem_bounds.1 hc
    exact forall_mem_effectiveBound minimum exclusiveMinimum
  case refine_6 =>
    intro c hc
    obtain ⟨_, maximum, _, exclusiveMaximum⟩ := forall_mem_bounds.1 hc
    exact forall_mem_effectiveBound maximum exclusiveMaximum
  all_goals exact fun _ _ _ _ => trivial

/-- **What it means that new constraints are within old ones**, side by side. -/
theorem isWithin_relation {old new : Constraints} : (old.relation new).IsWithin ↔
    (∀ a ∈ old.minLength, ∃ b ∈ new.minLength, a ≤ b) ∧
    (∀ a ∈ old.maxLength, ∃ b ∈ new.maxLength, b ≤ a) ∧
    (∀ a ∈ old.pattern, a ∈ new.pattern) ∧
    (∀ a ∈ old.format, a ∈ new.format) ∧
    (Side.lower.relation old.lowerBound new.lowerBound).IsWithin ∧
    (Side.upper.relation old.upperBound new.upperBound).IsWithin ∧
    ∀ s ∈ old.allowed, ∃ t ∈ new.allowed, ∀ a ∈ t, a ∈ s := by
  rw [relation_eq_all, Relation.isWithin_all, List.forall_mem_map]
  simp only [sides, List.forall_mem_cons, List.not_mem_nil, false_implies, implies_true, and_true,
    Relation.ofLower, Relation.ofUpper, Relation.ofRestriction, Relation.isWithin_ofOptional,
    Relation.isWithin_ofOrdering, Relation.isWithin_ite_eq, isWithin_relationOfAllowed,
    exists_eq_right']

end Constraints

end ContractDrift
