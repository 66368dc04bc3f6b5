import ContractDrift.Proofs.Changes
import ContractDrift.Proofs.Number
import ContractDrift.Proofs.Reordering
import ContractDrift.Proofs.SameValue

/-!
# The comparison sees every difference

Parts at one path have no difference exactly if they *agree*: all their data is equal, what has a
path of its own apart.  Tags agree as sets, free values by `Json.same`, and bounds as the numbers
that they stand for.  Since a contract can be rebuilt from its index, agreement at every path is
agreement of the contracts up to order.

* `Node.Agrees` — the agreement of two parts, datum by datum.
* `Node.bounds`, `Contract.HasNumericBounds` — no bound of the contract is NaN.  NaN is not even
  the same as itself, so a comparison cannot say that such a bound stays.
* `Node.differences_eq_nil_iff` — two parts have no difference exactly if they agree.
* **`Contract.changes_eq_nil_iff_upToOrder`** — two contracts have no change exactly if they agree
  up to order.
-/

namespace ContractDrift

/-! ## Agreement -/

/-- The same names, and equal values under each. -/
def Parameters.Agrees (a b : Parameters) : Prop :=
  ∀ k, Json.sameOptional (a.get? k) (b.get? k) = true

/-- The number of the bound, and whether it is accepted. -/
def Bound.number (b : Bound) : Option (WithBotTop ℚ) × Bool := (b.value.value?, b.inclusive)

/-- The same ends. -/
structure Threshold.Agrees (s t : Threshold) : Prop where
  lower : s.lower.map Bound.number = t.lower.map Bound.number
  upper : s.upper.map Bound.number = t.upper.map Bound.number

/-- The same keywords with the same values, limits as numbers. -/
structure Constraints.Agrees (c d : Constraints) : Prop where
  minLength : c.minLength = d.minLength
  maxLength : c.maxLength = d.maxLength
  pattern : c.pattern = d.pattern
  format : c.format = d.format
  minimum : c.minimum.map Binary64.value? = d.minimum.map Binary64.value?
  maximum : c.maximum.map Binary64.value? = d.maximum.map Binary64.value?
  exclusiveMinimum : c.exclusiveMinimum.map Binary64.value?
    = d.exclusiveMinimum.map Binary64.value?
  exclusiveMaximum : c.exclusiveMaximum.map Binary64.value?
    = d.exclusiveMaximum.map Binary64.value?
  allowed : c.allowed = d.allowed

/-- The same server, its name apart. -/
structure Server.Agrees (s t : Server) : Prop where
  type : s.type = t.type
  description : s.description = t.description
  parameters : s.parameters.Agrees t.parameters

/-- The same rule, its name apart. -/
structure QualityRule.Agrees (r s : QualityRule) : Prop where
  kind : r.kind = s.kind
  threshold : r.threshold.Agrees s.threshold
  description : r.description = s.description
  parameters : r.parameters.Agrees s.parameters

/-- The same model, its name, fields and rules apart. -/
structure Model.Agrees (m n : Model) : Prop where
  type : m.type = n.type
  title : m.title = n.title
  description : m.description = n.description
  primaryKey : m.primaryKey = n.primaryKey
  tags : ∀ tag, tag ∈ m.tags ↔ tag ∈ n.tags

/-- The same metadata, tags as a set. -/
structure FieldMetadata.Agrees (m n : FieldMetadata) : Prop where
  tags : ∀ tag, tag ∈ m.tags ↔ tag ∈ n.tags
  pii : m.pii = n.pii
  classification : m.classification = n.classification
  example? : Json.sameOptional m.example? n.example? = true

/-- The same attributes, name and rules apart. -/
structure FieldAttributes.Agrees (a b : FieldAttributes) : Prop where
  required : a.required = b.required
  unique : a.unique = b.unique
  primary : a.primary = b.primary
  references : a.references = b.references
  default? : Json.sameOptional a.default? b.default? = true
  title : a.title = b.title
  description : a.description = b.description
  metadata : a.metadata.Agrees b.metadata

/-- The same shape: scalars of one type with agreeing constraints, or the same container. -/
inductive Field.ShapeAgrees : Field → Field → Prop
  | scalar {a b : FieldAttributes} {type : DataType} {c d : Constraints}
      (constraints : c.Agrees d) : ShapeAgrees (.scalar a type c) (.scalar b type d)
  | nested {a b : FieldAttributes} {container : Container} {fields others : List Field} :
      ShapeAgrees (.nested a container fields) (.nested b container others)

/-- The same field, its name and what is inside of it apart. -/
structure Field.Agrees (f g : Field) : Prop where
  attributes : f.attributes.Agrees g.attributes
  shape : f.ShapeAgrees g

/-- Two parts agree in all that is not a part of its own. -/
def Node.Agrees : Node → Node → Prop
  | .info i, .info j => i = j
  | .terms s, .terms t => s = t
  | .server s, .server t => s.Agrees t
  | .model m, .model n => m.Agrees n
  | .field f, .field g => f.Agrees g
  | .quality r, .quality s => r.Agrees s
  | _, _ => False

/-! ## Bounds -/

/-- The values of the bounds of a threshold. -/
def Threshold.bounds (t : Threshold) : List Binary64 :=
  (t.lower.toList ++ t.upper.toList).map Bound.value

/-- The values of the bounds among the constraints. -/
def Constraints.bounds (c : Constraints) : List Binary64 :=
  c.minimum.toList ++ c.maximum.toList ++ c.exclusiveMinimum.toList ++ c.exclusiveMaximum.toList

/-- The values of the bounds that a part declares. -/
def Node.bounds : Node → List Binary64
  | .field f => (f.constraints?.map Constraints.bounds).getD []
  | .quality r => r.threshold.bounds
  | _ => []

/-- No part of the contract has a bound that is NaN. -/
def Contract.HasNumericBounds (c : Contract) : Prop :=
  ∀ e ∈ c.nodes, ∀ x ∈ e.2.bounds, x ≠ Binary64.nan

/-! ## No difference -/

lemma Attribute.when_eq_nil_iff {a : Attribute} {differs : Bool} :
    a.when differs = [] ↔ differs = false := by
  cases differs <;> simp [Attribute.when]

lemma sameMembers_iff {a b : List String} :
    sameMembers a b = true ↔ ∀ tag, tag ∈ a ↔ tag ∈ b := by
  rw [sameMembers, beq_iff_eq]
  constructor
  · intro h tag
    rw [← Members.mem_ofList, h, Members.mem_ofList]
  · intro h
    refine Members.ext_mem fun tag => ?_
    rw [Members.mem_ofList, Members.mem_ofList, h]

lemma Constraints.sameNumber_iff {a b : Option Binary64} (ha : ∀ x ∈ a, x ≠ .nan) :
    sameNumber a b = true ↔ a.map Binary64.value? = b.map Binary64.value? := by
  cases a with
  | none => cases b <;> simp [sameNumber]
  | some x =>
      cases b with
      | none => simp [sameNumber]
      | some y =>
          rw [sameNumber, Binary64.same_iff_value?_eq (ha x rfl)]
          simp

lemma Bound.sameOptional_iff {a b : Option Bound} (ha : ∀ x ∈ a, x.value ≠ .nan) :
    sameOptional a b = true ↔ a.map Bound.number = b.map Bound.number := by
  cases a with
  | none => cases b <;> simp [sameOptional]
  | some x =>
      cases b with
      | none => simp [sameOptional]
      | some y =>
          rw [sameOptional, same, Bool.and_eq_true, Binary64.same_iff_value?_eq (ha x rfl)]
          simp [number]

lemma Threshold.same_iff {s t : Threshold} (hs : ∀ x ∈ s.bounds, x ≠ .nan) :
    s.same t = true ↔ s.Agrees t := by
  have hlower : ∀ b ∈ s.lower, b.value ≠ .nan := fun b hb => hs _ (by simp_all [bounds])
  have hupper : ∀ b ∈ s.upper, b.value ≠ .nan := fun b hb => hs _ (by simp_all [bounds])
  rw [same, Bool.and_eq_true, Bound.sameOptional_iff hlower, Bound.sameOptional_iff hupper]
  exact ⟨fun h => ⟨h.1, h.2⟩, fun h => ⟨h.lower, h.upper⟩⟩

lemma Constraints.same_iff {c d : Constraints} (hc : ∀ x ∈ c.bounds, x ≠ .nan) :
    c.same d = true ↔ c.Agrees d := by
  simp only [bounds, List.forall_mem_append, Option.mem_toList] at hc
  obtain ⟨⟨⟨hmin, hmax⟩, hexmin⟩, hexmax⟩ := hc
  simp only [same, Bool.and_eq_true, beq_iff_eq, sameNumber_iff hmin, sameNumber_iff hmax,
    sameNumber_iff hexmin, sameNumber_iff hexmax]
  constructor
  · rintro ⟨⟨⟨⟨⟨⟨⟨⟨h₁, h₂⟩, h₃⟩, h₄⟩, h₅⟩, h₆⟩, h₇⟩, h₈⟩, h₉⟩
    exact ⟨h₁, h₂, h₃, h₄, h₅, h₆, h₇, h₈, h₉⟩
  · rintro ⟨h₁, h₂, h₃, h₄, h₅, h₆, h₇, h₈, h₉⟩
    exact ⟨⟨⟨⟨⟨⟨⟨⟨h₁, h₂⟩, h₃⟩, h₄⟩, h₅⟩, h₆⟩, h₇⟩, h₈⟩, h₉⟩

lemma FieldMetadata.same_iff {m n : FieldMetadata} : m.same n = true ↔ m.Agrees n := by
  simp only [same, Bool.and_eq_true, beq_iff_eq, sameMembers_iff]
  constructor
  · rintro ⟨⟨⟨tags, pii⟩, classification⟩, example?⟩
    exact ⟨tags, pii, classification, example?⟩
  · rintro ⟨tags, pii, classification, example?⟩
    exact ⟨⟨⟨tags, pii⟩, classification⟩, example?⟩

section Differences

lemma Server.differences_eq_nil_iff {s t : Server} : s.differences t = [] ↔ s.Agrees t := by
  simp only [differences, List.append_eq_nil_iff, Attribute.when_eq_nil_iff, bne_eq_false_iff_eq,
    Bool.not_eq_false', Parameters.same_iff]
  constructor
  · rintro ⟨⟨type, parameters⟩, description⟩
    exact ⟨type, description, parameters⟩
  · rintro ⟨type, description, parameters⟩
    exact ⟨⟨type, parameters⟩, description⟩

lemma Model.differences_eq_nil_iff {m n : Model} : m.differences n = [] ↔ m.Agrees n := by
  simp only [differences, List.append_eq_nil_iff, Attribute.when_eq_nil_iff, bne_eq_false_iff_eq,
    Bool.or_eq_false_iff, Bool.not_eq_false', sameMembers_iff]
  constructor
  · rintro ⟨⟨⟨type, primaryKey⟩, title, description⟩, tags⟩
    exact ⟨type, title, description, primaryKey, tags⟩
  · rintro ⟨type, title, description, primaryKey, tags⟩
    exact ⟨⟨⟨type, primaryKey⟩, title, description⟩, tags⟩

lemma QualityRule.differences_eq_nil_iff {r s : QualityRule}
    (hr : ∀ x ∈ r.threshold.bounds, x ≠ .nan) : r.differences s = [] ↔ r.Agrees s := by
  simp only [differences, List.append_eq_nil_iff, Attribute.when_eq_nil_iff, bne_eq_false_iff_eq,
    Bool.not_eq_false', Threshold.same_iff hr, Parameters.same_iff]
  constructor
  · rintro ⟨⟨⟨kind, threshold⟩, parameters⟩, description⟩
    exact ⟨kind, threshold, description, parameters⟩
  · rintro ⟨kind, threshold, description, parameters⟩
    exact ⟨⟨⟨kind, threshold⟩, parameters⟩, description⟩

lemma FieldAttributes.differences_eq_nil_iff {a b : FieldAttributes} :
    a.differences b = [] ↔ a.Agrees b := by
  simp only [differences, List.append_eq_nil_iff, Attribute.when_eq_nil_iff, bne_eq_false_iff_eq,
    Bool.or_eq_false_iff, Bool.not_eq_false', FieldMetadata.same_iff]
  constructor
  · rintro ⟨⟨⟨⟨⟨⟨required, unique⟩, primary⟩, references⟩, default?⟩, title, description⟩, metadata⟩
    exact ⟨required, unique, primary, references, default?, title, description, metadata⟩
  · rintro ⟨required, unique, primary, references, default?, title, description, metadata⟩
    exact ⟨⟨⟨⟨⟨⟨required, unique⟩, primary⟩, references⟩, default?⟩, title, description⟩, metadata⟩

lemma Field.shapeDifferences_eq_nil_iff {f g : Field}
    (hf : ∀ x ∈ (Node.field f).bounds, x ≠ .nan) :
    f.shapeDifferences g = [] ↔ f.ShapeAgrees g := by
  cases f with
  | scalar a t c =>
      cases g with
      | nested b k fs => exact ⟨fun h => absurd h (by simp [shapeDifferences]), fun h => by cases h⟩
      | scalar b u d =>
          simp only [shapeDifferences, List.append_eq_nil_iff, Attribute.when_eq_nil_iff,
            bne_eq_false_iff_eq, Bool.not_eq_false', Constraints.same_iff hf]
          constructor
          · rintro ⟨rfl, constraints⟩
            exact .scalar constraints
          · rintro ⟨constraints⟩
            exact ⟨rfl, constraints⟩
  | nested a k fs =>
      cases g with
      | scalar b u d => exact ⟨fun h => absurd h (by simp [shapeDifferences]), fun h => by cases h⟩
      | nested b l gs =>
          simp only [shapeDifferences, Attribute.when_eq_nil_iff, bne_eq_false_iff_eq]
          constructor
          · rintro rfl
            exact .nested
          · rintro ⟨⟩
            rfl

lemma Field.differences_eq_nil_iff {f g : Field} (hf : ∀ x ∈ (Node.field f).bounds, x ≠ .nan) :
    f.differences g = [] ↔ f.Agrees g := by
  rw [differences, List.append_eq_nil_iff, shapeDifferences_eq_nil_iff hf,
    FieldAttributes.differences_eq_nil_iff]
  exact ⟨fun h => ⟨h.2, h.1⟩, fun h => ⟨h.shape, h.attributes⟩⟩

/-- The identity has two groups, which hold all that is in it. -/
lemma Identity.differences_eq_nil_iff {i j : Identity} : i.differences j = [] ↔ i = j := by
  simp only [differences, List.append_eq_nil_iff, Attribute.when_eq_nil_iff, bne_eq_false_iff_eq,
    Bool.or_eq_false_iff]
  constructor
  · rintro ⟨⟨title, description⟩, ⟨⟨⟨id, specification⟩, version⟩, owner⟩, contact⟩
    obtain ⟨_, _, ⟨⟩⟩ := i
    obtain ⟨_, _, ⟨⟩⟩ := j
    simp_all
  · rintro rfl
    simp

/-- **Two parts have no difference exactly if they agree.** -/
theorem Node.differences_eq_nil_iff {m n : Node} (hm : ∀ x ∈ m.bounds, x ≠ .nan) :
    m.differences n = [] ↔ m.Agrees n := by
  cases m <;> cases n <;> try exact ⟨fun h => absurd h (by simp [differences]), False.elim⟩
  · exact Identity.differences_eq_nil_iff
  · simp [differences, Attribute.when_eq_nil_iff, Agrees]
  · exact Server.differences_eq_nil_iff
  · exact Model.differences_eq_nil_iff
  · exact Field.differences_eq_nil_iff hm
  · exact QualityRule.differences_eq_nil_iff hm

end Differences

/-! ## No change -/

namespace Contract

variable {a b : Contract} {p : Path}

lemma HasNumericBounds.of_get?_index (h : a.HasNumericBounds) {n : Node}
    (hn : a.index.get? p = some n) : ∀ x ∈ n.bounds, x ≠ .nan :=
  h _ (Entries.mem_of_get?_ofList hn)

lemma changesAt_eq_nil_iff (h : a.HasNumericBounds) :
    Comparison.changesAt p (a.index.get? p) (b.index.get? p) = [] ↔
      Option.Rel Node.Agrees (a.index.get? p) (b.index.get? p) := by
  cases hm : a.index.get? p with
  | none =>
      cases b.index.get? p with
      | none => exact ⟨fun _ => .none, fun _ => rfl⟩
      | some n => exact ⟨fun h => absurd h (by simp [Comparison.changesAt]), fun h => by cases h⟩
  | some m =>
      cases b.index.get? p with
      | none => exact ⟨fun h => absurd h (by simp [Comparison.changesAt]), fun h => by cases h⟩
      | some n =>
          rw [Comparison.changesAt, List.map_eq_nil_iff,
            Node.differences_eq_nil_iff (h.of_get?_index hm)]
          exact ⟨.some, fun h => by cases h with | some h => exact h⟩

/-- **The comparison sees every difference and only differences.**  Two contracts in which no name
repeats and no bound of the first is NaN have no change exactly if they agree up to the order in
which servers, models, fields and rules are declared. -/
theorem changes_eq_nil_iff_upToOrder (ha : a.NamesDistinct) (hb : b.NamesDistinct)
    (bounds : a.HasNumericBounds) : (a.compare b).changes = [] ↔ UpToOrder Node.Agrees a b := by
  have kinds : ∀ {r s : QualityRule}, Node.Agrees (.quality r) (.quality s) → r.kind = s.kind :=
    fun h => h.kind
  rw [changes_eq_nil_iff, upToOrder_iff kinds ha hb]
  exact forall_congr' fun p => changesAt_eq_nil_iff bounds

/-- A limit of zero with either sign, a default of one of either kind, and tags and fields in
another order are no change. -/
theorem changes_eq_nil_of_other_spelling :
    let total (default : Json) (tags : List String) (negative : Bool) : Field :=
      .scalar { name := "total", default? := some default, metadata := { tags } } .double
        { minimum := some (.zero negative) }
    ((single [.plain "id" .int, total (.int 1) ["a", "b"] false]).compare
      (single [total (.real (.finite false 1 0)) ["b", "a", "b"] true, .plain "id" .int])).changes
        = [] := by
  intro total
  have distinct : ∀ {d t n}, (total d t n).NamesDistinct :=
    .intro List.nodup_nil List.nodup_nil fun _ hg => absurd hg List.not_mem_nil
  refine (changes_eq_nil_iff_upToOrder ?_ ?_ ?_).2 ?_
  · exact namesDistinct_single (by simp [total, Field.plain, Field.name])
      (by simp [Field.namesDistinct_plain, distinct])
  · exact namesDistinct_single (by simp [total, Field.plain, Field.name])
      (by simp [Field.namesDistinct_plain, distinct])
  · simp [HasNumericBounds, nodes, single, named, Model.nodes, Field.listNodes, Field.nodes,
      Field.plain, total, QualityRule.nodes, Node.bounds, Constraints.bounds, Field.constraints?,
      Binary64.zero]
  · have ofTotal : Node.Agrees (.field (total (.int 1) ["a", "b"] false))
        (.field (total (.real (.finite false 1 0)) ["b", "a", "b"] true)) := by
      refine ⟨⟨rfl, rfl, rfl, rfl, by decide, rfl, rfl, ?_⟩, .scalar ?_⟩
      · exact ⟨by simp [total, or_comm], rfl, rfl, rfl⟩
      · refine ⟨rfl, rfl, rfl, rfl, ?_, rfl, rfl, rfl, rfl⟩
        simp [Binary64.value?, Binary64.zero, Binary64.rational, Binary64.signed]
    have ofId : Node.Agrees (.field (.plain "id" .int)) (.field (.plain "id" .int)) :=
      ⟨⟨rfl, rfl, rfl, rfl, rfl, rfl, rfl, ⟨by simp, rfl, rfl, rfl⟩⟩,
        .scalar ⟨rfl, rfl, rfl, rfl, rfl, rfl, rfl, rfl, rfl⟩⟩
    have noRules : QualityRule.UpToOrder Node.Agrees [] [] := ⟨[], .nil, fun _ => rfl, .nil⟩
    have fields : Rearranged (Field.UpToOrder Node.Agrees)
        [.plain "id" .int, total (.int 1) ["a", "b"] false]
        [total (.real (.finite false 1 0)) ["b", "a", "b"] true, .plain "id" .int] :=
      ⟨_, .swap _ _ _, .cons (.intro rfl ofTotal noRules .nil .nil)
        (.cons (.intro rfl ofId noRules .nil .nil) .nil)⟩
    have ofModel : ∀ {fs gs : List Field}, Node.Agrees (.model { name := "orders", fields := fs })
        (.model { name := "orders", fields := gs }) := ⟨rfl, rfl, rfl, rfl, fun _ => Iff.rfl⟩
    exact ⟨rfl, .none, ⟨[], .nil, .nil⟩,
      ⟨_, .refl _, .cons ⟨rfl, ofModel, noRules, fields⟩ .nil⟩, noRules⟩

end Contract

end ContractDrift
