import ContractDrift.Changelog.Basic
import ContractDrift.Proofs.Places

/-!
# A change does not look below its part

The part that an index holds at a path carries everything that stands below it.  Comparing, grading
and ordering changes never look there: what stands below has a path and changes of its own.  So
every step from two indexes to a changelog can be taken with *bare* parts, which have lost their
fields and rules.

* `Node.bare`, `Change.bare`, `GradedChange.bare` — without what has a path of its own.
* `Node.differences_bare` — bare parts differ in the same groups.
* `Rule.forChange?_bare`, `Change.grade_bare` — bare changes are graded alike.
* **`Changelog.ofGraded_bare`** — covering and ordering commute with baring.
-/

namespace ContractDrift

/-! ## Bare parts -/

/-- The field without the fields and rules inside. -/
def Field.bare : Field → Field
  | .scalar attributes type constraints =>
    .scalar { attributes with quality := [] } type constraints
  | .nested attributes container _ => .nested { attributes with quality := [] } container []

/-- The model without its fields and rules. -/
def Model.bare (m : Model) : Model := { m with fields := [], quality := [] }

/-- The part without what has a path of its own. -/
def Node.bare : Node → Node
  | .model m => .model m.bare
  | .field f => .field f.bare
  | n => n

@[simp] lemma Field.attributes_bare (f : Field) :
    f.bare.attributes = { f.attributes with quality := [] } := by
  cases f <;> rfl

@[simp] lemma Field.constraints?_bare (f : Field) : f.bare.constraints? = f.constraints? := by
  cases f <;> rfl

lemma Node.sort_bare (n : Node) : n.bare.sort = n.sort := by cases n <;> rfl

@[simp] lemma Node.entity_bare (n : Node) : n.bare.entity = n.entity :=
  entity_eq_of_sort_eq n.sort_bare

@[simp] lemma Node.isContainer_bare (n : Node) : n.bare.isContainer = n.isContainer := by
  cases n <;> rfl

lemma Field.differences_bare (f g : Field) : f.bare.differences g.bare = f.differences g := by
  cases f <;> cases g <;> rfl

/-- **Bare parts differ in the same groups.** -/
theorem Node.differences_bare (m n : Node) : m.bare.differences n.bare = m.differences n := by
  cases m <;> cases n <;> first | rfl | exact Field.differences_bare _ _

/-! ## Bare changes -/

/-- The change between the bare parts. -/
def Change.bare : Change → Change
  | .added path node => .added path node.bare
  | .removed path node => .removed path node.bare
  | .modified path group old new => .modified path group old.bare new.bare

namespace Change

@[simp] lemma path_bare (c : Change) : c.bare.path = c.path := by cases c <;> rfl

@[simp] lemma kind_bare (c : Change) : c.bare.kind = c.kind := by cases c <;> rfl

@[simp] lemma group?_bare (c : Change) : c.bare.group? = c.group? := by cases c <;> rfl

@[simp] lemma node_bare (c : Change) : c.bare.node = c.node.bare := by cases c <;> rfl

@[simp] lemma entity_bare (c : Change) : c.bare.entity = c.entity := by
  rw [entity, node_bare, Node.entity_bare, entity]

lemma old?_bare (c : Change) : c.bare.old? = c.old?.map Node.bare := by cases c <;> rfl

lemma new?_bare (c : Change) : c.bare.new? = c.new?.map Node.bare := by cases c <;> rfl

/-! What the conditions of the rules read of a change is left as it was. -/

@[simp] lemma oldModel?_bare (c : Change) : c.bare.oldModel? = c.oldModel?.map Model.bare := by
  rw [oldModel?, oldModel?, old?_bare]
  rcases c.old? with _ | (_ | _ | _ | _ | _ | _) <;> rfl

@[simp] lemma newModel?_bare (c : Change) : c.bare.newModel? = c.newModel?.map Model.bare := by
  rw [newModel?, newModel?, new?_bare]
  rcases c.new? with _ | (_ | _ | _ | _ | _ | _) <;> rfl

@[simp] lemma oldField?_bare (c : Change) : c.bare.oldField? = c.oldField?.map Field.bare := by
  rw [oldField?, oldField?, old?_bare]
  rcases c.old? with _ | (_ | _ | _ | _ | _ | _) <;> rfl

@[simp] lemma newField?_bare (c : Change) : c.bare.newField? = c.newField?.map Field.bare := by
  rw [newField?, newField?, new?_bare]
  rcases c.new? with _ | (_ | _ | _ | _ | _ | _) <;> rfl

@[simp] lemma oldRule?_bare (c : Change) : c.bare.oldRule? = c.oldRule? := by
  rw [oldRule?, oldRule?, old?_bare]
  rcases c.old? with _ | (_ | _ | _ | _ | _ | _) <;> rfl

@[simp] lemma newRule?_bare (c : Change) : c.bare.newRule? = c.newRule? := by
  rw [newRule?, newRule?, new?_bare]
  rcases c.new? with _ | (_ | _ | _ | _ | _ | _) <;> rfl

lemma constraintsRelation?_bare (c : Change) :
    c.bare.constraintsRelation? = c.constraintsRelation? := by
  rw [constraintsRelation?, constraintsRelation?, oldField?_bare, newField?_bare]
  cases c.oldField? <;> cases c.newField? <;> simp

lemma thresholdRelation?_bare (c : Change) :
    c.bare.thresholdRelation? = c.thresholdRelation? := by
  rw [thresholdRelation?, thresholdRelation?, oldRule?_bare, newRule?_bare]

end Change

lemma Field.isOmissible_bare (f : Field) : f.bare.isOmissible = f.isOmissible := by
  cases f <;> rfl

/-- The conditions of the rules hold of a change and of the bare one alike. -/
lemma Condition.holds_bare (c : Change) (k : Condition) : k.holds c.bare = k.holds c := by
  cases k
  case typeWidened =>
    simp only [holds, Change.oldField?_bare, Change.newField?_bare]
    rcases c.oldField? with _ | (_ | _) <;> rcases c.newField? with _ | (_ | _) <;> rfl
  case constraintsTightened | constraintsRelaxed =>
    simp only [holds, Change.constraintsRelation?_bare]
  case thresholdTightened | thresholdRelaxed =>
    simp only [holds, Change.thresholdRelation?_bare]
  case modelHadNoKey | modelHasNoKey =>
    simp only [holds, Change.oldModel?_bare, Change.newModel?_bare, Option.any_map]
    rfl
  all_goals
    simp only [holds, Change.oldField?_bare, Change.newField?_bare, Option.any_map,
      Field.attributes_bare, Field.isOmissible_bare]

lemma Rule.applies_bare (r : Rule) (c : Change) : r.applies c.bare = r.applies c := by
  have h : Condition.holds c.bare = Condition.holds c := funext (Condition.holds_bare c)
  simp only [applies, Change.entity_bare, Change.kind_bare, Change.group?_bare, h]

/-- The same rule decides about a change and about the bare one. -/
theorem Rule.forChange?_bare (c : Change) : forChange? c.bare = forChange? c := by
  simp only [forChange?, applies_bare]

/-- The changes at a path are those between the bare parts, with the parts put back. -/
lemma Comparison.changesAt_bare (p : Path) (m n : Option Node) :
    changesAt p (m.map Node.bare) (n.map Node.bare) = (changesAt p m n).map Change.bare := by
  cases m with
  | none => cases n <;> rfl
  | some m =>
      cases n with
      | none => rfl
      | some n =>
          simp only [changesAt, Option.map_some, List.map_map, Node.differences_bare]
          rfl

/-! ## Bare graded changes -/

/-- The grade of the bare change. -/
def GradedChange.bare (g : GradedChange) : GradedChange := { g with change := g.change.bare }

/-- Grading commutes with baring. -/
theorem Change.grade_bare (settings : ChangelogSettings) (c : Change) :
    c.bare.grade settings = (c.grade settings).bare := by
  simp only [grade, Rule.forChange?_bare, GradedChange.bare]

namespace Changelog

variable (all : List GradedChange)

lemma isCovered_bare (g : GradedChange) :
    isCovered (all.map GradedChange.bare) g.bare = isCovered all g := by
  simp only [isCovered, List.any_map]
  congr 1
  funext h
  simp [GradedChange.bare, GradedChange.isWholeContainer]

lemma uncovered_bare :
    uncovered (all.map GradedChange.bare) = (uncovered all).map GradedChange.bare := by
  rw [uncovered, List.filter_map]
  congr 1
  exact List.filter_congr fun g _ => by rw [Function.comp_apply, isCovered_bare]

lemma pathSeverity_bare (p : Path) :
    pathSeverity (all.map GradedChange.bare) p = pathSeverity all p := by
  rw [pathSeverity, List.filter_map, List.foldl_map]
  simp [pathSeverity, GradedChange.bare, Function.comp_def]

lemma order_bare (g h : GradedChange) :
    order (all.map GradedChange.bare) g.bare h.bare = order all g h := by
  simp only [order, pathSeverity_bare]
  simp [GradedChange.bare]

lemma sorted_bare : sorted (all.map GradedChange.bare) = (sorted all).map GradedChange.bare := by
  rw [sorted, sorted]
  refine (List.map_mergeSort fun g _ h _ => ?_).symm
  rw [order_bare]

/-- **Covering and ordering commute with baring.** -/
theorem ofGraded_bare :
    (ofGraded (all.map GradedChange.bare)).changes
      = (ofGraded all).changes.map GradedChange.bare := by
  rw [ofGraded, ofGraded, uncovered_bare, sorted_bare]

end Changelog

end ContractDrift
