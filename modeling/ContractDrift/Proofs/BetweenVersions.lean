import ContractDrift.Proofs.Agreement

/-!
# A version between two versions

Agreement of two parts is transitive, one datum after the other: free values by the numbers in them,
tags as sets, parameters under each name, bounds as numbers.  NaN is the same as nothing, so parts
without a difference have no bound that is NaN, and what is said here needs no assumption about
bounds.  Nor does it need names to be distinct: a path is looked up in three indexes, and if it is
unchanged in two steps it is unchanged from the first version to the last one.

* **`Json.same_trans`** — equality of free values is transitive.
* `Node.Agrees.trans` — so is the agreement of parts.
* `Node.ne_nan_of_differences_eq_nil` — a part with a bound that is NaN differs from all parts.
* **`Contract.changes_of_steps`** — a change between two versions is met in one of the two steps
  through a third version, at the same path.
-/

namespace ContractDrift

/-! ## Free values -/

namespace Binary64

theorem same_trans {a b c : Binary64} (hab : a.same b = true) (hbc : b.same c = true) :
    a.same c = true := by
  obtain ⟨x, ha, hb⟩ := same_iff.1 hab
  obtain ⟨y, hb', hc⟩ := same_iff.1 hbc
  obtain rfl := Option.some.inj (hb.symm.trans hb')
  exact same_iff.2 ⟨x, ha, hc⟩

lemma ne_nan_of_same {a b : Binary64} (h : a.same b = true) : a ≠ .nan := by
  obtain ⟨x, ha, _⟩ := same_iff.1 h
  rintro rfl
  cases ha

end Binary64

namespace Json

/-! What is the same as a value is of its kind, where all numbers are of one kind. -/

lemma same_null_iff {v : Json} : null.same v = true ↔ null = v := by
  cases v <;> simp [same]

lemma same_bool_iff {a : Bool} {v : Json} : (bool a).same v = true ↔ bool a = v := by
  cases v <;> simp [same]

lemma same_text_iff {s : String} {v : Json} : (text s).same v = true ↔ text s = v := by
  cases v <;> simp [same]

lemma same_list_iff {a : List Json} {v : Json} :
    (list a).same v = true ↔ ∃ b, v = list b ∧ sameList a b = true := by
  cases v <;> simp [same]

lemma same_object_iff {a : List (String × Json)} {v : Json} :
    (object a).same v = true ↔ ∃ b, v = object b ∧ sameEntries a b = true := by
  cases v <;> simp [same]

lemma same_iff_of_number {u v : Json} {x : Binary64} (hu : u.number? = some x) :
    u.same v = true ↔ ∃ y, v.number? = some y ∧ x.same y = true := by
  cases u <;> cases hu <;> cases v <;> simp [same, number?]

lemma same_trans_of_number {u v w : Json} {x : Binary64} (hu : u.number? = some x)
    (huv : u.same v = true) (hvw : v.same w = true) : u.same w = true := by
  obtain ⟨y, hv, hxy⟩ := (same_iff_of_number hu).1 huv
  obtain ⟨z, hw, hyz⟩ := (same_iff_of_number hv).1 hvw
  exact (same_iff_of_number hu).2 ⟨z, hw, Binary64.same_trans hxy hyz⟩

mutual

/-- **Equality of free values is transitive.** -/
theorem same_trans : ∀ {u v w : Json}, u.same v = true → v.same w = true → u.same w = true
  | .null, _, _, huv, hvw => by
      obtain rfl := same_null_iff.1 huv
      exact hvw
  | .bool _, _, _, huv, hvw => by
      obtain rfl := same_bool_iff.1 huv
      exact hvw
  | .int _, _, _, huv, hvw => same_trans_of_number rfl huv hvw
  | .real _, _, _, huv, hvw => same_trans_of_number rfl huv hvw
  | .text _, _, _, huv, hvw => by
      obtain rfl := same_text_iff.1 huv
      exact hvw
  | .list _, _, _, huv, hvw => by
      obtain ⟨_, rfl, hab⟩ := same_list_iff.1 huv
      obtain ⟨_, rfl, hbc⟩ := same_list_iff.1 hvw
      exact same_list_iff.2 ⟨_, rfl, sameList_trans hab hbc⟩
  | .object _, _, _, huv, hvw => by
      obtain ⟨_, rfl, hab⟩ := same_object_iff.1 huv
      obtain ⟨_, rfl, hbc⟩ := same_object_iff.1 hvw
      exact same_object_iff.2 ⟨_, rfl, sameEntries_trans hab hbc⟩

theorem sameList_trans : ∀ {a b c : List Json}, sameList a b = true → sameList b c = true →
    sameList a c = true
  | [], [], _, _, hbc => hbc
  | u :: a, v :: b, w :: c, hab, hbc => by
      rw [sameList, Bool.and_eq_true] at hab hbc ⊢
      exact ⟨same_trans hab.1 hbc.1, sameList_trans hab.2 hbc.2⟩

theorem sameEntries_trans : ∀ {a b c : List (String × Json)}, sameEntries a b = true →
    sameEntries b c = true → sameEntries a c = true
  | [], [], _, _, hbc => hbc
  | (k, u) :: a, (l, v) :: b, (m, w) :: c, hab, hbc => by
      simp only [sameEntries, Bool.and_eq_true, beq_iff_eq] at hab hbc ⊢
      obtain ⟨⟨hkl, huv⟩, hab⟩ := hab
      obtain ⟨⟨hlm, hvw⟩, hbc⟩ := hbc
      exact ⟨⟨hkl.trans hlm, same_trans huv hvw⟩, sameEntries_trans hab hbc⟩

end

lemma sameOptional_trans {u v w : Option Json} (huv : sameOptional u v = true)
    (hvw : sameOptional v w = true) : sameOptional u w = true := by
  cases u with
  | none =>
      cases v with
      | none => exact hvw
      | some v => cases huv
  | some u =>
      cases v with
      | none => cases huv
      | some v =>
          cases w with
          | none => cases hvw
          | some w => exact same_trans huv hvw

end Json

/-! ## Agreement -/

section Agrees

lemma Parameters.Agrees.trans {a b c : Parameters} (hab : a.Agrees b) (hbc : b.Agrees c) :
    a.Agrees c :=
  fun k => Json.sameOptional_trans (hab k) (hbc k)

lemma Threshold.Agrees.trans {s t u : Threshold} (hst : s.Agrees t) (htu : t.Agrees u) :
    s.Agrees u where
  lower := hst.lower.trans htu.lower
  upper := hst.upper.trans htu.upper

lemma Constraints.Agrees.trans {c d e : Constraints} (hcd : c.Agrees d) (hde : d.Agrees e) :
    c.Agrees e where
  minLength := hcd.minLength.trans hde.minLength
  maxLength := hcd.maxLength.trans hde.maxLength
  pattern := hcd.pattern.trans hde.pattern
  format := hcd.format.trans hde.format
  minimum := hcd.minimum.trans hde.minimum
  maximum := hcd.maximum.trans hde.maximum
  exclusiveMinimum := hcd.exclusiveMinimum.trans hde.exclusiveMinimum
  exclusiveMaximum := hcd.exclusiveMaximum.trans hde.exclusiveMaximum
  allowed := hcd.allowed.trans hde.allowed

lemma Server.Agrees.trans {s t u : Server} (hst : s.Agrees t) (htu : t.Agrees u) :
    s.Agrees u where
  type := hst.type.trans htu.type
  description := hst.description.trans htu.description
  parameters := hst.parameters.trans htu.parameters

lemma QualityRule.Agrees.trans {r s t : QualityRule} (hrs : r.Agrees s) (hst : s.Agrees t) :
    r.Agrees t where
  kind := hrs.kind.trans hst.kind
  threshold := hrs.threshold.trans hst.threshold
  description := hrs.description.trans hst.description
  parameters := hrs.parameters.trans hst.parameters

lemma Model.Agrees.trans {l m n : Model} (hlm : l.Agrees m) (hmn : m.Agrees n) : l.Agrees n where
  type := hlm.type.trans hmn.type
  title := hlm.title.trans hmn.title
  description := hlm.description.trans hmn.description
  primaryKey := hlm.primaryKey.trans hmn.primaryKey
  tags := fun tag => (hlm.tags tag).trans (hmn.tags tag)

lemma FieldMetadata.Agrees.trans {l m n : FieldMetadata} (hlm : l.Agrees m) (hmn : m.Agrees n) :
    l.Agrees n where
  tags := fun tag => (hlm.tags tag).trans (hmn.tags tag)
  pii := hlm.pii.trans hmn.pii
  classification := hlm.classification.trans hmn.classification
  example? := Json.sameOptional_trans hlm.example? hmn.example?

lemma FieldAttributes.Agrees.trans {a b c : FieldAttributes} (hab : a.Agrees b)
    (hbc : b.Agrees c) : a.Agrees c where
  required := hab.required.trans hbc.required
  unique := hab.unique.trans hbc.unique
  primary := hab.primary.trans hbc.primary
  references := hab.references.trans hbc.references
  default? := Json.sameOptional_trans hab.default? hbc.default?
  title := hab.title.trans hbc.title
  description := hab.description.trans hbc.description
  metadata := hab.metadata.trans hbc.metadata

lemma Field.ShapeAgrees.trans {f g h : Field} (hfg : f.ShapeAgrees g) (hgh : g.ShapeAgrees h) :
    f.ShapeAgrees h := by
  cases hfg with
  | scalar hcd =>
      cases hgh with
      | scalar hde => exact .scalar (hcd.trans hde)
  | nested =>
      cases hgh with
      | nested => exact .nested

lemma Field.Agrees.trans {f g h : Field} (hfg : f.Agrees g) (hgh : g.Agrees h) : f.Agrees h where
  attributes := hfg.attributes.trans hgh.attributes
  shape := hfg.shape.trans hgh.shape

/-- **Agreement of parts is transitive**, also over all sorts of parts: parts that agree are of one
sort. -/
theorem Node.Agrees.trans {l m n : Node} (hlm : l.Agrees m) (hmn : m.Agrees n) : l.Agrees n := by
  cases l <;> cases m <;> try exact hlm.elim
  all_goals cases n <;> try exact hmn.elim
  · exact Eq.trans hlm hmn
  · exact Eq.trans hlm hmn
  · exact Server.Agrees.trans hlm hmn
  · exact Model.Agrees.trans hlm hmn
  · exact Field.Agrees.trans hlm hmn
  · exact QualityRule.Agrees.trans hlm hmn

end Agrees

/-! ## Bounds that are NaN -/

lemma Constraints.ne_nan_of_sameNumber {a b : Option Binary64} (h : sameNumber a b = true) :
    ∀ x ∈ a.toList, x ≠ .nan := by
  cases a with
  | none => simp
  | some x =>
      cases b with
      | none => cases h
      | some y =>
          rw [Option.toList_some, List.forall_mem_singleton]
          exact Binary64.ne_nan_of_same h

lemma Constraints.ne_nan_of_same {c d : Constraints} (h : c.same d = true) :
    ∀ x ∈ c.bounds, x ≠ .nan := by
  simp only [same, Bool.and_eq_true] at h
  obtain ⟨⟨⟨⟨⟨_, hmin⟩, hmax⟩, hexmin⟩, hexmax⟩, _⟩ := h
  simp only [bounds, List.forall_mem_append]
  exact ⟨⟨⟨ne_nan_of_sameNumber hmin, ne_nan_of_sameNumber hmax⟩, ne_nan_of_sameNumber hexmin⟩,
    ne_nan_of_sameNumber hexmax⟩

lemma Bound.ne_nan_of_sameOptional {a b : Option Bound} (h : sameOptional a b = true) :
    ∀ x ∈ a.toList.map value, x ≠ .nan := by
  cases a with
  | none => simp
  | some x =>
      cases b with
      | none => cases h
      | some y =>
          rw [sameOptional, same, Bool.and_eq_true] at h
          rw [Option.toList_some, List.map_singleton, List.forall_mem_singleton]
          exact Binary64.ne_nan_of_same h.1

lemma Threshold.ne_nan_of_same {s t : Threshold} (h : s.same t = true) :
    ∀ x ∈ s.bounds, x ≠ .nan := by
  rw [same, Bool.and_eq_true] at h
  rw [bounds, List.map_append, List.forall_mem_append]
  exact ⟨Bound.ne_nan_of_sameOptional h.1, Bound.ne_nan_of_sameOptional h.2⟩

lemma Field.ne_nan_of_differences_eq_nil {f g : Field} (h : f.differences g = []) :
    ∀ x ∈ (Node.field f).bounds, x ≠ .nan := by
  obtain ⟨shape, _⟩ := List.append_eq_nil_iff.1 h
  cases f with
  | nested a k fs => simp [Node.bounds, constraints?]
  | scalar a t c =>
      cases g with
      | nested b k gs => exact absurd shape (List.cons_ne_nil _ _)
      | scalar b u d =>
          rw [shapeDifferences, List.append_eq_nil_iff, Attribute.when_eq_nil_iff,
            Attribute.when_eq_nil_iff, Bool.not_eq_false'] at shape
          exact Constraints.ne_nan_of_same shape.2

lemma QualityRule.ne_nan_of_differences_eq_nil {r s : QualityRule} (h : r.differences s = []) :
    ∀ x ∈ r.threshold.bounds, x ≠ .nan := by
  simp only [differences, List.append_eq_nil_iff, Attribute.when_eq_nil_iff,
    Bool.not_eq_false'] at h
  obtain ⟨⟨⟨_, threshold⟩, _⟩, _⟩ := h
  exact Threshold.ne_nan_of_same threshold

/-- **A part with a bound that is NaN differs from all parts**, also from itself. -/
theorem Node.ne_nan_of_differences_eq_nil {m n : Node} (h : m.differences n = []) :
    ∀ x ∈ m.bounds, x ≠ .nan := by
  cases m with
  | field f =>
      cases n with
      | field g => exact Field.ne_nan_of_differences_eq_nil h
      | _ => exact absurd h (List.cons_ne_nil _ _)
  | quality r =>
      cases n with
      | quality s => exact QualityRule.ne_nan_of_differences_eq_nil h
      | _ => exact absurd h (List.cons_ne_nil _ _)
  | _ => simp [bounds]

/-- Having no difference is transitive. -/
lemma Node.differences_eq_nil_trans {l m n : Node} (hlm : l.differences m = [])
    (hmn : m.differences n = []) : l.differences n = [] := by
  have hl := ne_nan_of_differences_eq_nil hlm
  have hm := ne_nan_of_differences_eq_nil hmn
  have agrees := ((differences_eq_nil_iff hl).1 hlm).trans ((differences_eq_nil_iff hm).1 hmn)
  exact (differences_eq_nil_iff hl).2 agrees

/-! ## Contracts -/

/-- Nothing happens at a path if nothing happens in two steps, whether or not a part is there. -/
lemma Comparison.changesAt_eq_nil_trans {p : Path} {l m n : Option Node}
    (hlm : changesAt p l m = []) (hmn : changesAt p m n = []) : changesAt p l n = [] := by
  cases l with
  | none =>
      cases m with
      | none => exact hmn
      | some m => exact absurd hlm (List.cons_ne_nil _ _)
  | some l =>
      cases m with
      | none => exact absurd hlm (List.cons_ne_nil _ _)
      | some m =>
          cases n with
          | none => exact absurd hmn (List.cons_ne_nil _ _)
          | some n =>
              rw [changesAt, List.map_eq_nil_iff] at hlm hmn ⊢
              exact Node.differences_eq_nil_trans hlm hmn

namespace Contract

variable {a b c : Contract}

/-- A path has a change exactly if the parts there are not without one. -/
lemma exists_change_iff {p : Path} : (∃ d ∈ (a.compare b).changes, d.path = p) ↔
    Comparison.changesAt p (a.index.get? p) (b.index.get? p) ≠ [] := by
  constructor
  · rintro ⟨d, hd, rfl⟩
    exact List.ne_nil_of_mem (mem_changes_iff.1 hd)
  · intro h
    obtain ⟨d, hd⟩ := List.exists_mem_of_ne_nil _ h
    obtain rfl := Comparison.path_of_mem_changesAt hd
    exact ⟨d, mem_changes_iff.2 hd, rfl⟩

/-- **No change is lost in a step.**  Whatever version is put between two versions, a path with a
change from the first to the last one has a change in one of the two steps.  So if nothing changes
in both steps, nothing changes from the first version to the last one. -/
theorem changes_of_steps (a b c : Contract) :
    (∀ p, (∃ d ∈ (a.compare c).changes, d.path = p) →
      (∃ d ∈ (a.compare b).changes, d.path = p) ∨ ∃ d ∈ (b.compare c).changes, d.path = p) ∧
    ((a.compare b).isEmpty = true → (b.compare c).isEmpty = true →
      (a.compare c).isEmpty = true) := by
  constructor
  · intro p hac
    rw [exists_change_iff] at hac ⊢
    rw [exists_change_iff]
    by_contra hsteps
    rw [not_or, Classical.not_not, Classical.not_not] at hsteps
    exact hac (Comparison.changesAt_eq_nil_trans hsteps.1 hsteps.2)
  · simp only [Comparison.isEmpty, List.isEmpty_iff, changes_eq_nil_iff]
    exact fun hab hbc p => Comparison.changesAt_eq_nil_trans (hab p) (hbc p)

/-- A column `total` whose constraints change from the first to the last version, with a container
of that name between them: neither step changes the constraints, but both change the type. -/
theorem changes_of_steps_through_container :
    let total (minimum : Bool) : Field :=
      .scalar { name := "total" } .int { minimum := some (.infinite minimum) }
    let middle : Field := .nested { name := "total" } .object []
    let path : Path := ["models", "orders", "fields", "total"]
    let old := single [total true]
    let new := single [total false]
    (∃ d ∈ (old.compare new).changes, d.path = path) ∧
      ((∃ d ∈ (old.compare (single [middle])).changes, d.path = path) ∨
        ∃ d ∈ ((single [middle]).compare new).changes, d.path = path) := by
  intro total middle path old new
  have field : ∀ minimum, (single [total minimum]).index.get? path =
      some (.field (total minimum)) := by
    intro minimum
    rw [index, Entries.get?_ofList]
    rfl
  have changed : ∃ d ∈ (old.compare new).changes, d.path = path :=
    ⟨.modified path .constraints _ _, modified_mem_iff.2 ⟨field true, field false, by decide⟩, rfl⟩
  exact ⟨changed, (changes_of_steps old (single [middle]) new).1 path changed⟩

end Contract

end ContractDrift
