import ContractDrift.Comparison.Value
import ContractDrift.Proofs.Changes
import ContractDrift.Proofs.SameValue

/-!
# Comparing in the opposite direction

Exchanging the two versions of a contract exchanges what came and what went and turns every
difference round; the list of changes keeps its order.  Two things make this more than a renaming.
The comparisons of single values are symmetric (`Json.same_comm` and the lemmas below), and a
difference is named after the part in the old version, which is of the same sort as the one in the
new version because they share their path (`Contract.sort_eq_of_modified`).

* `Node.differences_comm` — the groups in which two parts differ, in either direction.
* **`Contract.compare_swap`** — the records of a comparison and of the opposite one.
-/

namespace ContractDrift

/-! ## Differences of two parts -/

theorem Bound.sameOptional_comm (a b : Option Bound) :
    Bound.sameOptional a b = Bound.sameOptional b a := by
  cases a with
  | none => cases b <;> rfl
  | some a =>
      cases b with
      | none => rfl
      | some b =>
          simp only [sameOptional, same]
          rw [Binary64.same_comm, BEq.comm (a := a.inclusive)]

theorem Threshold.same_comm (s t : Threshold) : s.same t = t.same s := by
  rw [same, same, Bound.sameOptional_comm, Bound.sameOptional_comm s.upper]

theorem Constraints.sameNumber_comm (a b : Option Binary64) : sameNumber a b = sameNumber b a := by
  cases a <;> cases b <;> first | rfl | exact Binary64.same_comm _ _

theorem Constraints.same_comm (c d : Constraints) : c.same d = d.same c := by
  simp only [same]
  rw [BEq.comm (a := c.minLength), BEq.comm (a := c.maxLength), BEq.comm (a := c.pattern),
    BEq.comm (a := c.format), BEq.comm (a := c.allowed), sameNumber_comm c.minimum,
    sameNumber_comm c.maximum, sameNumber_comm c.exclusiveMinimum,
    sameNumber_comm c.exclusiveMaximum]

theorem sameMembers_comm (a b : List String) : sameMembers a b = sameMembers b a := BEq.comm

theorem Server.differences_comm (s t : Server) : s.differences t = t.differences s := by
  rw [differences, differences, bne_comm, Parameters.same_comm, bne_comm (a := s.description)]

theorem Model.differences_comm (m n : Model) : m.differences n = n.differences m := by
  rw [differences, differences, bne_comm, bne_comm (a := m.primaryKey), bne_comm (a := m.title),
    bne_comm (a := m.description), sameMembers_comm]

theorem QualityRule.differences_comm (r s : QualityRule) : r.differences s = s.differences r := by
  rw [differences, differences, bne_comm, Threshold.same_comm, Parameters.same_comm,
    bne_comm (a := r.description)]

theorem FieldMetadata.same_comm (m n : FieldMetadata) : m.same n = n.same m := by
  rw [same, same, sameMembers_comm, BEq.comm (a := m.pii), BEq.comm (a := m.classification),
    Json.sameOptional_comm]

theorem FieldAttributes.differences_comm (a b : FieldAttributes) :
    a.differences b = b.differences a := by
  rw [differences, differences, bne_comm, bne_comm (a := a.unique), bne_comm (a := a.primary),
    bne_comm (a := a.references), Json.sameOptional_comm, bne_comm (a := a.title),
    bne_comm (a := a.description), FieldMetadata.same_comm]

theorem Field.shapeDifferences_comm (f g : Field) :
    f.shapeDifferences g = g.shapeDifferences f := by
  cases f <;> cases g
  · rw [shapeDifferences, shapeDifferences, bne_comm, Constraints.same_comm]
  · rfl
  · rfl
  · rw [shapeDifferences, shapeDifferences, bne_comm]

theorem Field.differences_comm (f g : Field) : f.differences g = g.differences f := by
  rw [differences, differences, shapeDifferences_comm, FieldAttributes.differences_comm]

theorem Identity.differences_comm (i j : Identity) : i.differences j = j.differences i := by
  rw [differences, differences, bne_comm, bne_comm (a := i.info.description), bne_comm (a := i.id),
    bne_comm (a := i.specification), bne_comm (a := i.info.version), bne_comm (a := i.info.owner),
    bne_comm (a := i.info.contact)]

/-- **Two parts differ in the same groups in either direction.** -/
theorem Node.differences_comm (m n : Node) : m.differences n = n.differences m := by
  cases m <;> cases n <;> try rfl
  · exact Identity.differences_comm _ _
  · rw [differences, differences, bne_comm]
  · exact Server.differences_comm _ _
  · exact Model.differences_comm _ _
  · exact Field.differences_comm _ _
  · exact QualityRule.differences_comm _ _

/-! ## Comparisons -/

namespace Comparison

lemma changesAt_swap (p : Path) (m n : Option Node) :
    changesAt p n m = (changesAt p m n).map Change.reverse := by
  cases m with
  | none => cases n <;> rfl
  | some m =>
      cases n with
      | none => rfl
      | some n =>
          simp only [changesAt, List.map_map]
          rw [Node.differences_comm]
          rfl

lemma isUnchanged_comm (m n : Option Node) : isUnchanged m n = isUnchanged n m := by
  cases m <;> cases n <;> try rfl
  simp only [isUnchanged, Node.differences_comm]

theorem between_swap (i j : Index) :
    (between j i).changes = (between i j).changes.map Change.reverse ∧
      (between j i).unchanged = (between i j).unchanged := by
  have paths : j.keys.union i.keys = i.keys.union j.keys :=
    Members.ext_mem fun p => by rw [Members.mem_union, Members.mem_union, or_comm]
  constructor
  · simp only [between, paths, List.map_flatMap]
    exact List.flatMap_congr fun p _ => changesAt_swap p _ _
  · simp only [between, paths]
    exact List.filter_congr fun p _ => isUnchanged_comm _ _

end Comparison

/-- All that a change tells. -/
structure ChangeRecord where
  path : Path
  kind : ChangeKind
  entity : EntityKind
  group? : Option Attribute
  old? : Option Node
  new? : Option Node
  oldValue : Json
  newValue : Json

/-- The record with its two sides exchanged, about the same part and group. -/
def ChangeRecord.swap (r : ChangeRecord) : ChangeRecord :=
  { r with
    kind := r.kind.reverse
    old? := r.new?, new? := r.old?
    oldValue := r.newValue, newValue := r.oldValue }

/-- What the change tells. -/
def Change.record (c : Change) : ChangeRecord where
  path := c.path
  kind := c.kind
  entity := c.entity
  group? := c.group?
  old? := c.old?
  new? := c.new?
  oldValue := c.oldValue
  newValue := c.newValue

/-- A reversed change tells the same with its sides exchanged, if it is named after the same sort
of part. -/
lemma Change.record_reverse {c : Change} (h : c.reverse.entity = c.entity) :
    c.reverse.record = c.record.swap := by
  rw [record, oldValue_reverse, newValue_reverse, h]
  cases c <;> rfl

namespace Contract

/-- The sort of part that a change is named after does not depend on the direction. -/
lemma entity_reverse {a b : Contract} {c : Change} (h : c ∈ (a.compare b).changes) :
    c.reverse.entity = c.entity := by
  cases c with
  | added p n => rfl
  | removed p n => rfl
  | modified p g m n =>
      -- the change is named after `m`, the reversed one after `n`
      obtain ⟨hm, hn, _⟩ := modified_mem_iff.1 h
      exact Node.entity_eq_of_sort_eq (sort_eq_of_modified hm hn).symm

/-- **Symmetry.**  The opposite comparison lists the same records, place by place, with added and
removed exchanged and both sides exchanged, and the same unchanged paths. -/
theorem compare_swap (a b : Contract) :
    (b.compare a).changes.map Change.record
        = (a.compare b).changes.map (fun c => c.record.swap) ∧
      (b.compare a).unchanged = (a.compare b).unchanged := by
  obtain ⟨changes, unchanged⟩ := Comparison.between_swap a.index b.index
  refine ⟨?_, unchanged⟩
  have hb : (b.compare a).changes = (a.compare b).changes.map Change.reverse := changes
  rw [hb, List.map_map]
  exact List.map_congr_left fun c hc => Change.record_reverse (entity_reverse hc)

end Contract

end ContractDrift
