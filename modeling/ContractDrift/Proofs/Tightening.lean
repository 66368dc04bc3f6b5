import ContractDrift.Proofs.Grading
import ContractDrift.Proofs.Inclusion
import ContractDrift.Proofs.Symmetry

/-!
# Tightened, relaxed, changed

A change of constraints and a change of a threshold have a direction, which decides about their
rule.  The direction is the relation of the two sides (`Proofs/Inclusion`), so that it turns round
with the comparison.

* `Directed` — constraints and thresholds as attributes whose changes have a direction, and
  `Directed.rule`, the rule for each relation.
* `Directed.rule_id_of_relation?`, `Directed.rule_id_eq_rule_iff` — it is the one that decides, and
  decides about no other changes.
* **`Contract.tightened_iff_relaxed_reverse`** — the relations are orders, and what one comparison
  calls tightened the opposite one calls relaxed.
* `Constraints.relation_eq_equal_iff` — when the relation of constraints is equal.
* **`Contract.constraints_change_iff`** — when there is a change of constraints, and which rule it
  has.  Limits are compared as they are declared and not by the bound that they come to, so that two
  fields with equal relations may differ.
-/

namespace ContractDrift

/-! ## The rules of a direction -/

lemma Relation.map_reverse_eq_some_iff {o : Option Relation} {r : Relation} :
    o.map reverse = some r.reverse ↔ o = some r := by
  have injective : Function.Injective reverse := Function.LeftInverse.injective reverse_reverse
  rw [← Option.map_some, (Option.map_injective injective).eq_iff]

/-- What lies on both sides is related the other way round from the other side. -/
lemma Relation.bind_reverse {α : Type} {relate : α → α → Relation}
    (h : ∀ a b, relate b a = (relate a b).reverse) (old new : Option α) :
    (new.bind fun b => old.bind fun a => some (relate b a)) =
      (old.bind fun a => new.bind fun b => some (relate a b)).map reverse := by
  cases old with
  | none => cases new <;> rfl
  | some a =>
      cases new with
      | none => rfl
      | some b => exact congrArg some (h a b)

/-- The rule by the table, given which conditions hold. -/
def Rule.idFor (entity : EntityKind) (kind : ChangeKind) (group : Option Attribute)
    (holds : Condition → Bool) : String :=
  ((decisive? ((candidates entity kind group).filter fun r => r.condition.all holds)).getD
    unclassified).id

namespace Change

variable {c : Change} {settings : ChangelogSettings}

lemma rule_id_grade (settings : ChangelogSettings) (c : Change) :
    (c.grade settings).rule.id = Rule.idFor c.entity c.kind c.group? (Condition.holds c) := by
  rw [Rule.idFor, ← Rule.forChange?_eq]
  rfl

/-- A rule all of whose rows are about one group under one condition decides only there. -/
lemma group?_eq_and_holds_of_rule_id {id : String} {g : Attribute} {k : Condition}
    (rows : ∀ r ∈ Rule.table, r.id = id → r.group = some g ∧ r.condition = some k)
    (hid : Rule.unclassified.id ≠ id) (h : (c.grade settings).rule.id = id) :
    c.group? = some g ∧ k.holds c = true := by
  cases hr : Rule.forChange? c with
  | none =>
      refine absurd ?_ hid
      rw [← h, grade, hr, Option.getD_none]
  | some r =>
      rw [grade, hr, Option.getD_some] at h
      obtain ⟨hmem, happlies⟩ := List.mem_filter.1 (Rule.mem_of_decisive? hr)
      obtain ⟨hg, hk⟩ := rows r hmem h
      simp only [Rule.applies, hg, hk, Bool.and_eq_true, Bool.or_eq_true, beq_iff_eq,
        Option.all_some, Option.isNone_some, Bool.false_eq_true, false_or] at happlies
      exact ⟨happlies.1.2.symm, happlies.2⟩

lemma kind_of_group? {g : Attribute} (h : c.group? = some g) : c.kind = .modified := by
  cases c with
  | modified => rfl
  | added | removed => cases h

lemma entity_of_oldField? {f : Field} (h : c.oldField? = some f) : c.entity = .field := by
  cases c with
  | added => cases h
  | removed p n | modified p g n =>
      cases n with
      | field => rfl
      | info | terms | server | model | quality => cases h

lemma entity_of_oldRule? {q : QualityRule} (h : c.oldRule? = some q) : c.entity = .qualityRule := by
  cases c with
  | added => cases h
  | removed p n | modified p g n =>
      cases n with
      | quality => rfl
      | info | terms | server | model | field => cases h

lemma group?_reverse (c : Change) : c.reverse.group? = c.group? := by
  cases c <;> rfl

lemma oldField?_reverse (c : Change) : c.reverse.oldField? = c.newField? := by
  cases c <;> rfl

lemma newField?_reverse (c : Change) : c.reverse.newField? = c.oldField? := by
  cases c <;> rfl

lemma oldRule?_reverse (c : Change) : c.reverse.oldRule? = c.newRule? := by
  cases c <;> rfl

lemma newRule?_reverse (c : Change) : c.reverse.newRule? = c.oldRule? := by
  cases c <;> rfl

end Change

/-- The attributes whose changes have a direction. -/
inductive Directed where
  | constraints
  | threshold

namespace Directed

/-- The attribute, as a group of changes. -/
def group : Directed → Attribute
  | constraints => .constraints
  | threshold => .threshold

/-- The sort of part that has the attribute. -/
def entity : Directed → EntityKind
  | constraints => .field
  | threshold => .qualityRule

/-- How the new side of a change lies to the old one. -/
def relation? : Directed → Change → Option Relation
  | constraints => Change.constraintsRelation?
  | threshold => Change.thresholdRelation?

/-- The condition on rules for changes in a direction. -/
def condition? : Directed → Relation → Option Condition
  | constraints, .narrower => some .constraintsTightened
  | constraints, .wider => some .constraintsRelaxed
  | threshold, .narrower => some .thresholdTightened
  | threshold, .wider => some .thresholdRelaxed
  | _, .equal | _, .incomparable => none

/-- The rule for changes in a direction, or without one. -/
def rule : Directed → Relation → String
  | constraints, .narrower => "field-constraints-tightened"
  | constraints, .wider => "field-constraints-relaxed"
  | constraints, .equal | constraints, .incomparable => "field-constraints-changed"
  | threshold, .narrower => "quality-threshold-tightened"
  | threshold, .wider => "quality-threshold-relaxed"
  | threshold, .equal | threshold, .incomparable => "quality-threshold-changed"

variable {d : Directed} {c : Change} {r : Relation} {k : Condition} {settings : ChangelogSettings}

lemma holds_iff (hk : d.condition? r = some k) :
    k.holds c = true ↔ d.relation? c = some r := by
  cases d <;> cases r <;> cases hk <;> exact beq_iff_eq

lemma entity_of_relation? (h : d.relation? c = some r) : c.entity = d.entity := by
  cases d with
  | constraints =>
      obtain ⟨f, hf, _⟩ := Option.bind_eq_some_iff.1 h
      exact Change.entity_of_oldField? hf
  | threshold =>
      obtain ⟨q, hq, _⟩ := Option.bind_eq_some_iff.1 h
      exact Change.entity_of_oldRule? hq

lemma relation?_reverse (d : Directed) (c : Change) :
    d.relation? c.reverse = (d.relation? c).map Relation.reverse := by
  cases d with
  | constraints =>
      have sides : ∀ c : Change, c.constraintsRelation? =
          (c.oldField?.bind Field.constraints?).bind fun old =>
            (c.newField?.bind Field.constraints?).bind fun new => some (old.relation new) := by
        intro c
        simp only [Option.bind_assoc]
        rfl
      rw [relation?, sides, sides, Change.oldField?_reverse, Change.newField?_reverse]
      exact Relation.bind_reverse Constraints.isInclusion_relation.reverse _ _
  | threshold =>
      rw [relation?, Change.thresholdRelation?, Change.thresholdRelation?,
        Change.oldRule?_reverse, Change.newRule?_reverse]
      exact Relation.bind_reverse
        (fun old new => Threshold.isInclusion_relation.reverse old.threshold new.threshold) _ _

/-- The rows of the table about the attribute, by the relation of the two sides. -/
lemma idFor_eq {holds : Condition → Bool}
    (h : ∀ s k, d.condition? s = some k → holds k = (r == s)) :
    Rule.idFor d.entity .modified (some d.group) holds = d.rule r := by
  have tightened := h .narrower
  have relaxed := h .wider
  cases d with
  | constraints =>
      have rows : Rule.candidates .field .modified (some .constraints) =
          (Rule.fields.drop 11).take 3 := rfl
      rw [Rule.idFor, entity, group, rows]
      cases r <;>
        simp [Rule.fields, tightened _ rfl, relaxed _ rfl, Rule.decisive?, Rule.yieldsTo,
          Rule.specificity, rule]
  | threshold =>
      have rows : Rule.candidates .qualityRule .modified (some .threshold) =
          (Rule.qualityRules.drop 2).take 3 := rfl
      rw [Rule.idFor, entity, group, rows]
      cases r <;>
        simp [Rule.qualityRules, tightened _ rfl, relaxed _ rfl, Rule.decisive?, Rule.yieldsTo,
          Rule.specificity, rule]

/-- **The relation of the two sides decides about the rule.** -/
theorem rule_id_of_relation? (hgroup : c.group? = some d.group) (hr : d.relation? c = some r) :
    (c.grade settings).rule.id = d.rule r := by
  rw [Change.rule_id_grade, entity_of_relation? hr, Change.kind_of_group? hgroup, hgroup]
  refine idFor_eq fun s k hk => ?_
  rw [Bool.eq_iff_iff, holds_iff hk, hr, Option.some_inj, beq_iff_eq]

/-- **The rules of a direction**, for any change. -/
theorem rule_id_eq_rule_iff (hk : d.condition? r = some k) :
    (c.grade settings).rule.id = d.rule r ↔ c.group? = some d.group ∧ d.relation? c = some r := by
  refine ⟨fun h => ?_, fun h => rule_id_of_relation? h.1 h.2⟩
  rw [← holds_iff hk]
  refine Change.group?_eq_and_holds_of_rule_id ?_ ?_ h
  · cases d <;> cases r <;> cases hk <;> decide
  · cases d <;> cases r <;> cases hk <;> decide

/-- A change has a direction if the opposite change has the opposite one. -/
lemma rule_id_reverse {s t : ChangelogSettings} {k' : Condition} (hk : d.condition? r = some k)
    (hk' : d.condition? r.reverse = some k') :
    (c.grade s).rule.id = d.rule r ↔ (c.reverse.grade t).rule.id = d.rule r.reverse := by
  rw [rule_id_eq_rule_iff hk, rule_id_eq_rule_iff hk', Change.group?_reverse, relation?_reverse,
    Relation.map_reverse_eq_some_iff]

end Directed

namespace Contract

lemma reverse_mem_changes {old new : Contract} {c : Change} (hc : c ∈ (old.compare new).changes) :
    c.reverse ∈ (new.compare old).changes := by
  have swapped : (new.compare old).changes = (old.compare new).changes.map Change.reverse :=
    (Comparison.between_swap old.index new.index).1
  rw [swapped]
  exact List.mem_map_of_mem hc

/-- **Tightening and relaxing are each other's reverse, and they chain.**  The relations of
constraints and of thresholds whose bounds are numbers behave like inclusion, and a chain is equal
only if both of its links are.  So of the records of a comparison those are tightened whose
counterparts in the opposite comparison are relaxed. -/
theorem tightened_iff_relaxed_reverse :
    (Relation.IsInclusion (fun c : Constraints => ∀ x ∈ c.bounds, x ≠ .nan)
        Constraints.relation ∧
      ∀ a b c : Constraints, (a.relation b).IsWithin → (b.relation c).IsWithin →
        a.relation c = .equal → a.relation b = .equal ∧ b.relation c = .equal) ∧
    (Relation.IsInclusion (fun t : Threshold => ∀ x ∈ t.bounds, x ≠ .nan) Threshold.relation ∧
      ∀ a b c : Threshold, (a.relation b).IsWithin → (b.relation c).IsWithin →
        a.relation c = .equal → a.relation b = .equal ∧ b.relation c = .equal) ∧
    ∀ (old new : Contract) (s t : ChangelogSettings), ∀ c ∈ (old.compare new).changes,
      c.reverse ∈ (new.compare old).changes ∧
      ((c.grade s).rule.id = "field-constraints-tightened" ↔
        (c.reverse.grade t).rule.id = "field-constraints-relaxed") ∧
      ((c.grade s).rule.id = "field-constraints-relaxed" ↔
        (c.reverse.grade t).rule.id = "field-constraints-tightened") ∧
      ((c.grade s).rule.id = "quality-threshold-tightened" ↔
        (c.reverse.grade t).rule.id = "quality-threshold-relaxed") ∧
      ((c.grade s).rule.id = "quality-threshold-relaxed" ↔
        (c.reverse.grade t).rule.id = "quality-threshold-tightened") := by
  have constraints := Constraints.isInclusion_relation
  have thresholds := Threshold.isInclusion_relation
  refine ⟨⟨constraints, fun _ _ _ => constraints.equal_of_trans⟩,
    ⟨thresholds, fun _ _ _ => thresholds.equal_of_trans⟩, fun old new s t c hc => ?_⟩
  exact ⟨reverse_mem_changes hc,
    Directed.rule_id_reverse (d := .constraints) (r := .narrower) rfl rfl,
    Directed.rule_id_reverse (d := .constraints) (r := .wider) rfl rfl,
    Directed.rule_id_reverse (d := .threshold) (r := .narrower) rfl rfl,
    Directed.rule_id_reverse (d := .threshold) (r := .wider) rfl rfl⟩

/-- A field whose least number is no longer accepted, after there had been none at first. -/
theorem tightened_of_exclusive_minimum :
    let inclusive : Constraints := { minimum := some (.finite false 1 0) }
    let exclusive : Constraints := { exclusiveMinimum := some (.finite false 1 0) }
    let total (constraints : Constraints) : Field := .scalar { name := "total" } .double constraints
    let change : Change := .modified ["models", "orders", "fields", "total"] .constraints
      (.field (total inclusive)) (.field (total exclusive))
    inclusive.relation inclusive = .equal ∧
      (Constraints.relation {} inclusive).IsWithin ∧ (inclusive.relation exclusive).IsWithin ∧
      (Constraints.relation {} exclusive).IsWithin ∧
      change ∈ ((single [total inclusive]).compare (single [total exclusive])).changes ∧
      (change.grade {}).rule.id = "field-constraints-tightened" ∧
      (change.reverse.grade {}).rule.id = "field-constraints-relaxed" := by
  intro inclusive exclusive total change
  obtain ⟨⟨relation, _⟩, _, records⟩ := tightened_iff_relaxed_reverse
  have first : (Constraints.relation {} inclusive).IsWithin := .inr (by decide)
  have second : (inclusive.relation exclusive).IsWithin := .inr (by decide)
  have hc : change ∈ ((single [total inclusive]).compare (single [total exclusive])).changes := by
    refine modified_mem_iff.2 ⟨?_, ?_, by decide⟩
    · rw [index, Entries.get?_ofList]
      rfl
    · rw [index, Entries.get?_ofList]
      rfl
  have tightened : (change.grade {}).rule.id = "field-constraints-tightened" :=
    Directed.rule_id_of_relation? (d := .constraints) (r := .narrower) rfl (by decide)
  exact ⟨relation.self inclusive (by decide), first, second,
    relation.trans _ _ _ first second, hc, tightened,
    (records _ _ _ {} change hc).2.1.1 tightened⟩

end Contract

/-! ## Equal relations -/

namespace Relation

lemma combine_eq_equal_iff {r s : Relation} : r.combine s = .equal ↔ r = .equal ∧ s = .equal := by
  cases r <;> cases s <;> decide

lemma all_eq_equal_iff {sides : List Relation} : all sides = .equal ↔ ∀ r ∈ sides, r = .equal := by
  induction sides with
  | nil => exact iff_of_true rfl (by simp)
  | cons r sides ih => rw [all_cons, combine_eq_equal_iff, ih, List.forall_mem_cons]

/-- A side that is equal only to itself. -/
lemma ofOptional_eq_equal_iff {α : Type} {relate : α → α → Relation} {old new : Option α}
    (h : ∀ a b, relate a b = .equal ↔ a = b) : ofOptional relate old new = .equal ↔ old = new := by
  cases old <;> cases new <;> simp [ofOptional, h]

lemma ofOrdering_eq_equal_iff {a b : ℕ} :
    ofOrdering (some (compare a b)) = .equal ↔ a = b := by
  refine Iff.trans ?_ compare_eq_iff_eq
  cases compare a b <;> simp [ofOrdering]

end Relation

lemma Side.compare_eq_equal_iff {side : Side} {a b : Bound} :
    side.compare a b = .equal ↔ a.same b = true := by
  rw [compare.eq_def, Bound.same, Binary64.same]
  rcases a.value.order b.value with _ | (_ | _ | _)
  · simp
  · cases side <;> simp
  · cases a.inclusive <;> cases b.inclusive <;> simp
  · cases side <;> simp

lemma Side.relation_eq_equal_iff {side : Side} {old new : Option Bound} :
    side.relation old new = .equal ↔ Bound.sameOptional old new = true := by
  cases old <;> cases new <;>
    simp [relation, Relation.ofOptional, Bound.sameOptional, compare_eq_equal_iff]

namespace Constraints

variable {c d : Constraints} {side : Side} {i i' e e' : Option Binary64}

lemma relationOfAllowed_eq_equal_iff {s t : Members String} :
    relationOfAllowed s t = .equal ↔ s = t := by
  rw [Relation.eq_equal_iff, ← relationOfAllowed_reverse, isWithin_relationOfAllowed,
    isWithin_relationOfAllowed]
  constructor
  · rintro ⟨h, h'⟩
    exact Members.ext_mem fun a => ⟨h' a, h a⟩
  · rintro rfl
    exact ⟨fun _ => id, fun _ => id⟩

/-- **The relation is equal** if all is the same but for limits, and the effective bounds are. -/
theorem relation_eq_equal_iff : c.relation d = .equal ↔
    c.minLength = d.minLength ∧ c.maxLength = d.maxLength ∧ c.pattern = d.pattern ∧
    c.format = d.format ∧ Bound.sameOptional c.lowerBound d.lowerBound = true ∧
    Bound.sameOptional c.upperBound d.upperBound = true ∧ c.allowed = d.allowed := by
  have restriction : ∀ {a b : String},
      (if a = b then Relation.equal else Relation.incomparable) = .equal ↔ a = b := by
    intro a b
    by_cases h : a = b <;> simp [h]
  rw [relation_eq_all, Relation.all_eq_equal_iff, List.forall_mem_map]
  simp only [sides, List.forall_mem_cons, List.not_mem_nil, false_implies, implies_true, and_true,
    Relation.ofLower, Relation.ofUpper, Relation.ofRestriction, Side.relation_eq_equal_iff]
  rw [Relation.ofOptional_eq_equal_iff fun a b => Relation.ofOrdering_eq_equal_iff.trans eq_comm,
    Relation.ofOptional_eq_equal_iff fun _ _ => Relation.ofOrdering_eq_equal_iff,
    Relation.ofOptional_eq_equal_iff fun _ _ => restriction,
    Relation.ofOptional_eq_equal_iff fun _ _ => restriction,
    Relation.ofOptional_eq_equal_iff fun _ _ => relationOfAllowed_eq_equal_iff]

/-- Whether both declare the same limits, as numbers, by the same keywords. -/
def sameLimits (c d : Constraints) : Bool :=
  sameNumber c.minimum d.minimum && sameNumber c.maximum d.maximum &&
    sameNumber c.exclusiveMinimum d.exclusiveMinimum &&
    sameNumber c.exclusiveMaximum d.exclusiveMaximum

/-- Whether one end is declared by two keywords, of which one has no effect. -/
def isDoubled (c : Constraints) : Bool :=
  c.minimum.isSome && c.exclusiveMinimum.isSome || c.maximum.isSome && c.exclusiveMaximum.isSome

/-- The same numbers are compared alike. -/
lemma order_congr {x x' y y' : Binary64} (hx : x.same x' = true) (hy : y.same y' = true) :
    x.order y = x'.order y' := by
  obtain ⟨v, hv, hv'⟩ := Binary64.same_iff.1 hx
  obtain ⟨w, hw, hw'⟩ := Binary64.same_iff.1 hy
  rw [Binary64.order_eq, Binary64.order_eq, hv, hv', hw, hw']

/-- The same limits come to the same effective bound. -/
lemma sameOptional_effectiveBound (hi : sameNumber i i' = true) (he : sameNumber e e' = true) :
    Bound.sameOptional (effectiveBound side i e) (effectiveBound side i' e') = true := by
  cases e with
  | none =>
      cases e' with
      | some => cases he
      | none => cases i <;> cases i' <;>
          simp_all [effectiveBound, sameNumber, Bound.sameOptional, Bound.same]
  | some e =>
      cases e' with
      | none => cases he
      | some e' =>
          cases i with
          | none =>
              cases i' with
              | some => cases hi
              | none =>
                  simpa [effectiveBound, Side.tighter, Bound.sameOptional, Bound.same, sameNumber]
                    using he
          | some i =>
              cases i' with
              | none => cases hi
              | some i' =>
                  -- which of the two is the tighter one is decided by the numbers
                  have same : i.same e = i'.same e' := by
                    rw [Binary64.same, Binary64.same, order_congr hi he]
                  have tightens : side.tightens e i = side.tightens e' i' := by
                    cases side <;>
                      simp only [Side.tightens, Binary64.below, order_congr hi he,
                        order_congr he hi]
                  simp only [effectiveBound, Option.map_some, Side.tighter, same, tightens]
                  generalize (if i'.same e' = true then !true else side.tightens e' i') = keep
                  cases keep
                  · simpa [Bound.sameOptional, Bound.same, sameNumber] using he
                  · simpa [Bound.sameOptional, Bound.same, sameNumber] using hi

/-- Where each end is declared by one keyword the effective bound is what is declared. -/
lemma sameNumber_of_effectiveBound (h : (i.isSome && e.isSome) = false)
    (h' : (i'.isSome && e'.isSome) = false)
    (hsame : Bound.sameOptional (effectiveBound side i e) (effectiveBound side i' e') = true) :
    sameNumber i i' = true ∧ sameNumber e e' = true := by
  cases i <;> cases e <;> cases i' <;> cases e' <;>
    simp_all [effectiveBound, Side.tighter, Bound.sameOptional, Bound.same, sameNumber]

/-- **Constraints are the same exactly if their relation is equal and they declare the same
limits.** -/
theorem same_iff_relation_eq_equal :
    c.same d = true ↔ c.relation d = .equal ∧ c.sameLimits d = true := by
  simp only [same, sameLimits, relation_eq_equal_iff, Bool.and_eq_true, beq_iff_eq]
  constructor
  · rintro ⟨⟨⟨⟨⟨⟨⟨⟨h₁, h₂⟩, h₃⟩, h₄⟩, hmin⟩, hmax⟩, hexmin⟩, hexmax⟩, h₉⟩
    exact ⟨⟨h₁, h₂, h₃, h₄, sameOptional_effectiveBound hmin hexmin,
      sameOptional_effectiveBound hmax hexmax, h₉⟩, ⟨⟨hmin, hmax⟩, hexmin⟩, hexmax⟩
  · rintro ⟨⟨h₁, h₂, h₃, h₄, _, _, h₉⟩, ⟨⟨hmin, hmax⟩, hexmin⟩, hexmax⟩
    exact ⟨⟨⟨⟨⟨⟨⟨⟨h₁, h₂⟩, h₃⟩, h₄⟩, hmin⟩, hmax⟩, hexmin⟩, hexmax⟩, h₉⟩

/-- Where no end is declared twice, an equal relation leaves no room for other limits. -/
lemma sameLimits_of_relation_eq_equal (hc : c.isDoubled = false) (hd : d.isDoubled = false)
    (h : c.relation d = .equal) : c.sameLimits d = true := by
  obtain ⟨_, _, _, _, hlower, hupper, _⟩ := relation_eq_equal_iff.1 h
  obtain ⟨hcmin, hcmax⟩ := Bool.or_eq_false_iff.1 hc
  obtain ⟨hdmin, hdmax⟩ := Bool.or_eq_false_iff.1 hd
  obtain ⟨hmin, hexmin⟩ := sameNumber_of_effectiveBound hcmin hdmin hlower
  obtain ⟨hmax, hexmax⟩ := sameNumber_of_effectiveBound hcmax hdmax hupper
  rw [sameLimits, hmin, hmax, hexmin, hexmax]
  rfl

end Constraints

/-! ## Changes of constraints -/

lemma Field.constraints_mem_differences_iff {f g : Field} {o n : Constraints}
    (ho : f.constraints? = some o) (hn : g.constraints? = some n) :
    Attribute.constraints ∈ f.differences g ↔ o.same n = false := by
  cases f with
  | nested => cases ho
  | scalar a t c =>
      cases g with
      | nested => cases hn
      | scalar b u d =>
          obtain rfl := Option.some.inj ho
          obtain rfl := Option.some.inj hn
          simp [differences, shapeDifferences, FieldAttributes.differences, Attribute.mem_when]

lemma Change.constraintsRelation?_modified {p : Path} {a : Attribute} {f g : Field}
    {o n : Constraints} (ho : f.constraints? = some o) (hn : g.constraints? = some n) :
    (modified p a (.field f) (.field g)).constraintsRelation? = some (o.relation n) := by
  simp [constraintsRelation?, oldField?, newField?, old?, new?, ho, hn]

namespace Contract

variable {old new : Contract} {p : Path} {f g : Field} {o n : Constraints}

section Records

variable (hf : old.index.get? p = some (.field f)) (hg : new.index.get? p = some (.field g))

include hf hg

/-- A path with a field in both versions has one change of constraints at most. -/
lemma eq_modified_of_constraints {c : Change} (hc : c ∈ (old.compare new).changes)
    (hp : c.path = p) (hgroup : c.group? = some .constraints) :
    c = .modified p .constraints (.field f) (.field g) :=
  (eq_modified_of_group hf hg hc hp hgroup).1

variable (ho : f.constraints? = some o) (hn : g.constraints? = some n)

include ho hn

/-- **When constraints change.**  Between scalar fields at one path a change of constraints is
listed, unless their relation is equal and they declare the same limits by the same keywords.  Its
rule is the one for changes without a direction exactly if the relation is incomparable or equal.
The latter takes an end that is declared by two keywords, since otherwise an equal relation leaves
no room for a change. -/
theorem constraints_change_iff :
    ((∃ c ∈ (old.compare new).changes, c.path = p ∧ c.group? = some .constraints) ↔
      ¬ (o.relation n = .equal ∧ o.sameLimits n = true)) ∧
    (∀ c ∈ (old.compare new).changes, c.path = p → c.group? = some .constraints → ∀ settings,
      ((c.grade settings).rule.id = "field-constraints-changed" ↔
        o.relation n = .incomparable ∨ o.relation n = .equal)) ∧
    (o.isDoubled = false → n.isDoubled = false → o.relation n = .equal →
      o.sameLimits n = true) := by
  refine ⟨?_, ?_, Constraints.sameLimits_of_relation_eq_equal⟩
  · rw [← Constraints.same_iff_relation_eq_equal, Bool.not_eq_true,
      ← Field.constraints_mem_differences_iff ho hn]
    constructor
    · rintro ⟨c, hc, hp, hgroup⟩
      rw [eq_modified_of_constraints hf hg hc hp hgroup] at hc
      exact (modified_mem_iff.1 hc).2.2
    · intro h
      exact ⟨_, modified_mem_iff.2 ⟨hf, hg, h⟩, rfl, rfl⟩
  · intro c hc hp hgroup settings
    have hrelation : c.constraintsRelation? = some (o.relation n) := by
      rw [eq_modified_of_constraints hf hg hc hp hgroup, Change.constraintsRelation?_modified ho hn]
    rw [Directed.rule_id_of_relation? (d := .constraints) hgroup hrelation]
    cases o.relation n <;> decide

end Records

/-- A limit that is dropped beside a tighter one is a change, although nothing else is accepted. -/
theorem constraints_change_of_dropped_minimum :
    let total (constraints : Constraints) : Field := .scalar { name := "total" } .double constraints
    let five : Binary64 := .finite false 5 0
    let old : Constraints := { minimum := some five, exclusiveMinimum := some five }
    let new : Constraints := { exclusiveMinimum := some five }
    old.relation new = .equal ∧
      ∃ c ∈ ((single [total old]).compare (single [total new])).changes,
        c.path = ["models", "orders", "fields", "total"] ∧ c.group? = some .constraints ∧
          (c.grade {}).rule.id = "field-constraints-changed" := by
  intro total five old new
  have equal : old.relation new = .equal := by decide
  have get : ∀ c, (single [total c]).index.get? ["models", "orders", "fields", "total"] =
      some (.field (total c)) := by
    intro c
    rw [index, Entries.get?_ofList]
    rfl
  have iff := constraints_change_iff (get old) (get new) (o := old) (n := new) rfl rfl
  obtain ⟨c, hc, hp, hgroup⟩ := iff.1.2 fun h => absurd h.2 (by decide)
  exact ⟨equal, c, hc, hp, hgroup, (iff.2.1 c hc hp hgroup {}).2 (.inr equal)⟩

/-- **Constraints that accept the same values can close the gate**: the change is breaking. -/
theorem fails_on_equal_relation_of_dropped_minimum :
    let total (constraints : Constraints) : Field := .scalar { name := "total" } .double constraints
    let five : Binary64 := .finite false 5 0
    let old : Constraints := { minimum := some five, exclusiveMinimum := some five }
    let new : Constraints := { exclusiveMinimum := some five }
    let change : Change := .modified ["models", "orders", "fields", "total"] .constraints
      (.field (total old)) (.field (total new))
    old.relation new = .equal ∧
      change ∈ ((single [total old]).compare (single [total new])).changes ∧
      (change.grade {}).rule.id = "field-constraints-changed" ∧
      ((single [total old]).changelog (single [total new]) {}).passes .breaking = false := by
  intro total five old new change
  have get : ∀ c, (single [total c]).index.get? change.path = some (.field (total c)) := by
    intro c
    rw [index, Entries.get?_ofList]
    rfl
  refine ⟨by decide, modified_mem_iff.2 ⟨get old, get new, by decide⟩, ?_, by decide +kernel⟩
  exact Directed.rule_id_of_relation? (d := .constraints) (r := .equal) rfl (by decide)

end Contract

end ContractDrift
