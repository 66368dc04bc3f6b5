import ContractDrift.Proofs.Changes
import ContractDrift.Proofs.Classification
import ContractDrift.Proofs.Covering
import ContractDrift.Proofs.DistinctNames
import ContractDrift.Proofs.Widening

/-!
# What a green gate means

The gate for breaking changes closes on a list of graded changes.  This file says what it means for
the contracts themselves: what is there stays there, stays usable, and what comes in places that
are there already can be left out.

* `Model.UsableAs`, `Field.UsableAs` — what may change of a model and of a field.
* `Contract.CompatibleWith` — the same for contracts, at any depth.
* `Model.usableAs_iff`, `Field.usableAs_iff` — a usable part has no breaking difference.
* **`Contract.passes_breaking_iff_compatibleWith`** — under the default settings the gate passes
  exactly for compatible contracts.

What a container stands for is no gap in this.  A container that went is breaking itself, and the
first one on a path has none above it that covers it.  A field that came is only covered by a
container that came with it, and then its owner was not there before.
-/

namespace ContractDrift

/-! ## Compatible contracts -/

/-- The model can be used as before: it is of the same type, and its key is the same or is declared
for the first time. -/
structure Model.UsableAs (old new : Model) : Prop where
  type : old.type = new.type
  primaryKey : old.primaryKey = new.primaryKey ∨ old.hasNoKey = true ∧ new.hasNoKey = false

/-- The shape of the field can be used as before: a scalar keeps its type or a wider one, and its
constraints stay or come to be a part of the old ones or to contain them; anything else keeps its
container. -/
inductive Field.ShapeUsableAs : Field → Field → Prop
  | scalar {a b : FieldAttributes} {t u : DataType} {c d : Constraints}
      (type : t.compatibility u = .identical ∨ t.compatibility u = .widened)
      (constraints : c.same d = true ∨ c.relation d = .narrower ∨ c.relation d = .wider) :
      ShapeUsableAs (.scalar a t c) (.scalar b u d)
  | nested {a b : FieldAttributes} {container : Container} {fields others : List Field} :
      ShapeUsableAs (.nested a container fields) (.nested b container others)

/-- The field can be used as before. -/
structure Field.UsableAs (old new : Field) : Prop where
  shape : old.ShapeUsableAs new
  required : new.attributes.required = true → old.attributes.required = true
  unique : old.attributes.unique = true → new.attributes.unique = true
  primary : old.attributes.primary = true → new.attributes.primary = true
  references : old.attributes.references = new.attributes.references ∨
    old.attributes.references = none ∨ new.attributes.references = none

/-- Whoever uses the old version can use the new one. -/
structure Contract.CompatibleWith (old new : Contract) : Prop where
  /-- Every model is still there and can be used as before. -/
  models : ∀ p m, old.ModelAt p m → ∃ n, new.ModelAt p n ∧ m.UsableAs n
  /-- Every field, at any depth, is still there and can be used as before. -/
  fields : ∀ p f, old.FieldAt p f → ∃ g, new.FieldAt p g ∧ f.UsableAs g
  /-- A field that comes into a model or field that was there can be left out. -/
  added : ∀ q g, new.FieldAt (q ++ ["fields", g.name]) g →
    (¬ ∃ f, old.FieldAt (q ++ ["fields", g.name]) f) → old.ContainerAt q →
      g.attributes.required = false ∨ g.attributes.default?.isSome = true

/-! ## Usable parts -/

lemma Attribute.forall_mem_when {a : Attribute} {differs : Bool} {P : Attribute → Prop} :
    (∀ g ∈ a.when differs, P g) ↔ (differs = true → P a) := by
  cases differs <;> simp [Attribute.when]

/-- **A model is usable as before** exactly if no difference breaks. -/
theorem Model.usableAs_iff {old new : Model} : old.UsableAs new ↔ ∀ g ∈ old.differences new,
    ¬ (g = .type ∨ g = .primaryKey ∧ (old.hasNoKey = false ∨ new.hasNoKey = true)) := by
  simp only [differences, List.forall_mem_append, Attribute.forall_mem_when, bne_iff_ne]
  constructor
  · intro h
    refine ⟨⟨⟨fun hne => absurd h.type hne, fun hne => ?_⟩, by simp⟩, by simp⟩
    obtain ⟨ho, hn⟩ := h.primaryKey.resolve_left hne
    simp [ho, hn]
  · rintro ⟨⟨⟨type, primaryKey⟩, _⟩, _⟩
    refine ⟨by_contra fun hne => type hne (.inl trivial), or_iff_not_imp_left.2 fun hne => ?_⟩
    simpa using primaryKey hne

lemma Field.attributes_usableAs_iff {old new : Field} :
    (∀ g ∈ old.attributes.differences new.attributes, ¬ old.Breaks new g) ↔
      (new.attributes.required = true → old.attributes.required = true) ∧
      (old.attributes.unique = true → new.attributes.unique = true) ∧
      (old.attributes.primary = true → new.attributes.primary = true) ∧
      (old.attributes.references = new.attributes.references ∨
        old.attributes.references = none ∨ new.attributes.references = none) := by
  have gains : ∀ a b : Bool, (a ≠ b → ¬ b = true) ↔ (b = true → a = true) := by decide
  have loses : ∀ a b : Bool, (a ≠ b → ¬ b = false) ↔ (a = true → b = true) := by decide
  have references : ∀ a b : Option String,
      (a ≠ b → ¬ (a.isSome = true ∧ b.isSome = true)) ↔ (a = b ∨ a = none ∨ b = none) := by
    rintro (_ | a) (_ | b) <;> simp
  simp only [FieldAttributes.differences, List.forall_mem_append, Attribute.forall_mem_when,
    bne_iff_ne, Breaks, gains, loses, references, not_false_eq_true, implies_true, and_true,
    and_assoc]

lemma Field.shapeUsableAs_scalar_iff {a b : FieldAttributes} {t u : DataType} {c d : Constraints} :
    ShapeUsableAs (.scalar a t c) (.scalar b u d) ↔
      (t ≠ u → t.compatibility u = .widened) ∧
      (c.same d = false → ¬ (c.relation d ≠ .narrower ∧ c.relation d ≠ .wider)) := by
  have type : (t ≠ u → t.compatibility u = .widened) ↔
      (t.compatibility u = .identical ∨ t.compatibility u = .widened) := by
    rw [DataType.compatibility_eq_identical_iff, or_iff_not_imp_left]
  have constraints :
      (c.same d = false → ¬ (c.relation d ≠ .narrower ∧ c.relation d ≠ .wider)) ↔
        (c.same d = true ∨ c.relation d = .narrower ∨ c.relation d = .wider) := by
    rw [or_iff_not_imp_left, Bool.not_eq_true, not_and_or, not_not, not_not]
  rw [type, constraints]
  constructor
  · intro h
    cases h with
    | scalar ht hc => exact ⟨ht, hc⟩
  · rintro ⟨ht, hc⟩
    exact .scalar ht hc

/-- The shape of a field is usable as before exactly if none of its groups breaks.  A change between
scalar and nested is one of type, and breaks. -/
lemma Field.shapeUsableAs_iff {old new : Field} :
    old.ShapeUsableAs new ↔ ∀ g ∈ old.shapeDifferences new, ¬ old.Breaks new g := by
  cases old with
  | scalar a t c =>
      cases new with
      | nested b k fs =>
          refine ⟨fun h => (by cases h), fun h => absurd ?_ (h .type (by simp [shapeDifferences]))⟩
          simp [Breaks, dataType?]
      | scalar b u d =>
          simp only [shapeUsableAs_scalar_iff, shapeDifferences, List.forall_mem_append,
            Attribute.forall_mem_when, bne_iff_ne, Breaks, dataType?, constraints?,
            Option.mem_some, forall_eq', Bool.not_eq_true', not_not]
  | nested a k fs =>
      cases new with
      | scalar b u d =>
          refine ⟨fun h => (by cases h), fun h => absurd ?_ (h .type (by simp [shapeDifferences]))⟩
          simp [Breaks, dataType?]
      | nested b l gs =>
          simp only [shapeDifferences, Attribute.forall_mem_when, bne_iff_ne, Breaks, dataType?]
          constructor
          · rintro ⟨⟩ hne
            exact absurd rfl hne
          · intro h
            obtain rfl : k = l := by
              by_contra hne
              exact h hne (by simp)
            exact .nested

/-- **A field is usable as before** exactly if no difference breaks. -/
theorem Field.usableAs_iff {old new : Field} :
    old.UsableAs new ↔ ∀ g ∈ old.differences new, ¬ old.Breaks new g := by
  rw [differences, List.forall_mem_append, ← shapeUsableAs_iff, attributes_usableAs_iff]
  constructor
  · rintro ⟨shape, required, unique, primary, references⟩
    exact ⟨shape, required, unique, primary, references⟩
  · rintro ⟨shape, required, unique, primary, references⟩
    exact ⟨shape, required, unique, primary, references⟩

/-! ## Changes that nothing covers -/

lemma Severity.breaking_le_iff {s : Severity} : .breaking ≤ s ↔ s = .breaking := by
  cases s <;> decide

namespace Contract

variable {old new : Contract} {p q : Path}

/-- Under the default settings the gate asks for a breaking change that nothing covers. -/
lemma passes_default_iff : (old.changelog new {}).passes .breaking = true ↔
    ∀ c ∈ (old.compare new).changes, ¬ c.IsCovered (old.compare new).changes →
      c.tableSeverity ≠ .breaking := by
  simp only [passes_iff, Severity.breaking_le_iff, Change.severity_grade_default, Ne]

/-- Where a container can stand and there is none, there is nothing. -/
lemma get?_index_eq_none (hn : new.NamesDistinct) (hold : old.ContainerAt p)
    (hnew : ¬ new.ContainerAt p) : new.index.get? p = none := by
  obtain ⟨s, hs, hcont⟩ := hold.sort?
  cases hget : new.index.get? p with
  | none => rfl
  | some n =>
      have hsort : n.sort = s := Option.some.inj ((sort?_of_get?_index hget).symm.trans hs)
      refine absurd ((containerAt_iff hn).2 ⟨n, hget, ?_⟩) hnew
      rw [n.isContainer_eq, hsort, hcont]

variable (ho : old.NamesDistinct) (hn : new.NamesDistinct)

include ho hn

/-- **If a container went, one of those that went is not covered**: the first one on its path. -/
lemma exists_removed_not_isCovered (hold : old.ContainerAt q) (hnew : ¬ new.ContainerAt q) :
    ∃ p n, .removed p n ∈ (old.compare new).changes ∧ n.isContainer = true ∧
      ¬ (Change.removed p n).IsCovered (old.compare new).changes := by
  obtain ⟨p, _, ⟨hp, hp'⟩, first⟩ := Path.exists_first_above
    (P := fun p => old.ContainerAt p ∧ ¬ new.ContainerAt p) q ⟨hold, hnew⟩
  obtain ⟨n, hget, hcont⟩ := (containerAt_iff ho).1 hp
  refine ⟨p, n, removed_mem_iff.2 ⟨hget, get?_index_eq_none hn hp hp'⟩, hcont, fun hcov => ?_⟩
  obtain ⟨r, m, hmem, hm, hpre, hne⟩ := Change.isCovered_removed_iff.1 hcov
  obtain ⟨hr, hr'⟩ := removed_mem_iff.1 hmem
  -- what covers it went as well, and stands above the first one that did
  refine first r hpre hne ⟨(containerAt_iff ho).2 ⟨m, hr, hm⟩, fun h => ?_⟩
  obtain ⟨k, hk, _⟩ := (containerAt_iff hn).1 h
  exact absurd (hr'.symm.trans hk) (by simp)

/-- **A field that came into a container that was there is not covered.**  All containers above it
were there as well. -/
lemma added_not_isCovered {g : Field} (hg : new.FieldAt (q ++ ["fields", g.name]) g)
    (habsent : ¬ ∃ f, old.FieldAt (q ++ ["fields", g.name]) f) (hq : old.ContainerAt q) :
    .added (q ++ ["fields", g.name]) (.field g) ∈ (old.compare new).changes ∧
      ¬ (Change.added (q ++ ["fields", g.name]) (.field g)).IsCovered
        (old.compare new).changes := by
  have hnone : old.index.get? (q ++ ["fields", g.name]) = none :=
    get?_index_eq_none ho (.inr ⟨g, hg⟩) fun h => habsent (h.exists_fieldAt hg.sort?)
  refine ⟨added_mem_iff.2 ⟨hnone, (get?_index_field_iff hn).2 hg⟩, fun hcov => ?_⟩
  obtain ⟨r, m, hmem, hm, hpre, hne⟩ := Change.isCovered_added_iff.1 hcov
  obtain ⟨hr, hr'⟩ := added_mem_iff.1 hmem
  obtain ⟨s, hs, hcont⟩ := ((containerAt_iff hn).2 ⟨m, hr', hm⟩).sort?
  have hrq : r <+: q := by
    rcases prefix_append_pair hpre with h | rfl | h
    · exact h
    · -- the list of the fields of the owner has a path, but no part is at it
      obtain ⟨t, ht, htcont⟩ := hq.sort?
      rw [Path.sort?_append _ ht htcont] at hs
      simp [Path.sortBelow?] at hs
    · exact absurd h hne
  obtain ⟨k, hk, _⟩ := (containerAt_iff ho).1 (containerAt_of_isPrefix hq hrq hs)
  exact absurd (hr.symm.trans hk) (by simp)

/-! ## The gate -/

/-- Behind a green gate every container is still there. -/
lemma containerAt_of_passes (h : (old.changelog new {}).passes .breaking = true)
    (hq : old.ContainerAt q) : new.ContainerAt q := by
  by_contra hq'
  obtain ⟨p, n, hmem, hcont, hcov⟩ := exists_removed_not_isCovered ho hn hq hq'
  exact passes_default_iff.1 h _ hmem hcov (Change.severity_removed_eq_breaking_iff.2 hcont)

/-- **Compatibility is necessary.**  What it forbids is a breaking change that nothing covers. -/
theorem compatibleWith_of_passes (h : (old.changelog new {}).passes .breaking = true) :
    old.CompatibleWith new := by
  have breaks := passes_default_iff.1 h
  constructor
  · intro p m hm
    obtain ⟨n, hn'⟩ := (containerAt_of_passes ho hn h (.inl ⟨m, hm⟩)).exists_modelAt hm.sort?
    refine ⟨n, hn', Model.usableAs_iff.2 fun g hg hbreak => ?_⟩
    have hmem : Change.modified p g (.model m) (.model n) ∈ (old.compare new).changes :=
      modified_mem_iff.2 ⟨(get?_index_model_iff ho).2 hm, (get?_index_model_iff hn).2 hn', hg⟩
    exact breaks _ hmem Change.not_isCovered_modified
      (Change.severity_model_eq_breaking_iff.2 hbreak)
  · intro p f hf
    obtain ⟨g, hg'⟩ := (containerAt_of_passes ho hn h (.inr ⟨f, hf⟩)).exists_fieldAt hf.sort?
    refine ⟨g, hg', Field.usableAs_iff.2 fun a ha hbreak => ?_⟩
    have hmem : Change.modified p a (.field f) (.field g) ∈ (old.compare new).changes :=
      modified_mem_iff.2 ⟨(get?_index_field_iff ho).2 hf, (get?_index_field_iff hn).2 hg', ha⟩
    exact breaks _ hmem Change.not_isCovered_modified
      (Change.severity_field_eq_breaking_iff.2 hbreak)
  · intro q g hg habsent hq
    obtain ⟨hmem, hcov⟩ := added_not_isCovered ho hn hg habsent hq
    by_contra hmandatory
    refine breaks _ hmem hcov (Change.severity_added_eq_breaking_iff.2 ⟨g, rfl, ?_⟩)
    rw [not_or] at hmandatory
    simpa [Field.isOmissible, Field.isNullable] using hmandatory

/-- Between compatible contracts a field that has to be there comes with its owner only, and the
owner stands for it. -/
lemma CompatibleWith.isCovered_added (h : old.CompatibleWith new) {g : Field}
    (hc : .added p (.field g) ∈ (old.compare new).changes) (hmandatory : g.isOmissible = false) :
    (Change.added p (.field g)).IsCovered (old.compare new).changes := by
  obtain ⟨hold, hnew⟩ := added_mem_iff.1 hc
  have hg := (get?_index_field_iff hn).1 hnew
  obtain ⟨q, rfl, hq⟩ := hg.exists_owner
  by_cases hq' : old.ContainerAt q
  · have habsent : ¬ ∃ f, old.FieldAt (q ++ ["fields", g.name]) f := by
      rintro ⟨f, hf⟩
      exact absurd (hold.symm.trans ((get?_index_field_iff ho).2 hf)) (by simp)
    rcases h.added q g hg habsent hq' with hopt | hopt <;>
      simp [Field.isOmissible, Field.isNullable, hopt] at hmandatory
  · -- the owner came as well
    obtain ⟨m, hm, hcont⟩ := (containerAt_iff hn).1 hq
    refine Change.isCovered_added_iff.2 ⟨q, m, ?_, hcont, List.prefix_append _ _, by simp⟩
    exact added_mem_iff.2 ⟨get?_index_eq_none ho hq hq', hm⟩

/-- Between compatible contracts no container goes. -/
lemma CompatibleWith.removed_not_mem (h : old.CompatibleWith new) {n : Node}
    (hcont : n.isContainer = true) : .removed p n ∉ (old.compare new).changes := by
  intro hc
  obtain ⟨hold, hnew⟩ := removed_mem_iff.1 hc
  have stays : new.ContainerAt p := by
    rcases (containerAt_iff ho).2 ⟨n, hold, hcont⟩ with ⟨m, hm⟩ | ⟨f, hf⟩
    · obtain ⟨k, hk, _⟩ := h.models p m hm
      exact .inl ⟨k, hk⟩
    · obtain ⟨g, hg, _⟩ := h.fields p f hf
      exact .inr ⟨g, hg⟩
  obtain ⟨k, hk, _⟩ := (containerAt_iff hn).1 stays
  exact absurd (hnew.symm.trans hk) (by simp)

/-- Between compatible contracts no difference breaks. -/
lemma CompatibleWith.modified_ne_breaking (h : old.CompatibleWith new) {a : Attribute}
    {m n : Node} (hc : .modified p a m n ∈ (old.compare new).changes) :
    (Change.modified p a m n).tableSeverity ≠ .breaking := by
  intro hbreak
  obtain ⟨hold, hnew, ha⟩ := modified_mem_iff.1 hc
  cases m with
  | model m =>
      obtain ⟨k, hk, husable⟩ := h.models p m ((get?_index_model_iff ho).1 hold)
      obtain rfl := Option.some.inj (hnew.symm.trans ((get?_index_model_iff hn).2 hk))
      exact Model.usableAs_iff.1 husable a ha (Change.severity_model_eq_breaking_iff.1 hbreak)
  | field f =>
      obtain ⟨k, hk, husable⟩ := h.fields p f ((get?_index_field_iff ho).1 hold)
      obtain rfl := Option.some.inj (hnew.symm.trans ((get?_index_field_iff hn).2 hk))
      exact Field.usableAs_iff.1 husable a ha (Change.severity_field_eq_breaking_iff.1 hbreak)
  | info _ | terms _ | server _ | quality _ => exact Change.severity_ne_breaking rfl hbreak

/-- **Compatibility is sufficient.**  A breaking change is one of three kinds, and the contracts
leave no room for any of them. -/
theorem passes_of_compatibleWith (h : old.CompatibleWith new) :
    (old.changelog new {}).passes .breaking = true := by
  refine passes_default_iff.2 fun c hc hcov hbreak => ?_
  cases c with
  | added p n =>
      obtain ⟨g, rfl, hmandatory⟩ := Change.severity_added_eq_breaking_iff.1 hbreak
      exact hcov (h.isCovered_added ho hn hc hmandatory)
  | removed p n =>
      exact h.removed_not_mem ho hn (Change.severity_removed_eq_breaking_iff.1 hbreak) hc
  | modified p a m n => exact h.modified_ne_breaking ho hn hc hbreak

/-- **The meaning of a green gate.**  Under the default settings no change is breaking exactly if
the new version is compatible with the old one. -/
theorem passes_breaking_iff_compatibleWith :
    (old.changelog new {}).passes .breaking = true ↔ old.CompatibleWith new :=
  ⟨compatibleWith_of_passes ho hn, passes_of_compatibleWith ho hn⟩

omit ho hn in
/-- A wider type and one more field that may be null leave the gate open. -/
theorem passes_breaking_of_wider_type_and_optional_field :
    ((single [.plain "id" .int]).changelog
      (single [.plain "note" .string, .plain "id" .long]) {}).passes .breaking = true := by
  have flat : ∀ {x y : String} {t u : DataType},
      ∀ f ∈ [Field.plain x t, Field.plain y u], f.children = [] := by
    simp [Field.plain, Field.children]
  refine (passes_breaking_iff_compatibleWith ?_ ?_).2 ⟨?_, ?_, ?_⟩
  · exact namesDistinct_single (by simp) (by simp [Field.namesDistinct_plain])
  · exact namesDistinct_single (by simp [Field.plain, Field.name])
      (by simp [Field.namesDistinct_plain])
  · rintro p m ⟨hm, rfl⟩
    obtain rfl := List.mem_singleton.1 hm
    exact ⟨_, ⟨List.mem_singleton_self _, rfl⟩, rfl, .inl rfl⟩
  · intro p f hf
    obtain ⟨hmem, rfl⟩ := (fieldAt_single_iff (by simp [Field.plain, Field.children])).1 hf
    obtain rfl := List.mem_singleton.1 hmem
    refine ⟨.plain "id" .long, (fieldAt_single_iff flat).2 ⟨by simp, rfl⟩, ?_⟩
    exact ⟨.scalar (.inr rfl) (.inl rfl), id, id, id, .inl rfl⟩
  · intro q g hg _ _
    obtain ⟨hg, _⟩ := (fieldAt_single_iff flat).1 hg
    rcases List.mem_pair.1 hg with rfl | rfl <;> exact .inl rfl

end Contract

end ContractDrift
