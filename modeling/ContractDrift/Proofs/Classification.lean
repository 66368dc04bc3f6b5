import ContractDrift.Changelog.Basic
import Mathlib.Tactic.Lemma

/-!
# What the classification table says

The table is a list of rows, and of those that apply to a change the most specific one decides,
among equally specific ones the most severe.  Which rows come into question depends on the sort of
part, the sort of change and the group only; the conditions then choose among a few.

* `Rule.candidates`, `Rule.forChange?_eq` — the rows that come into question, and the choice.
* `Rule.severityFor` — the severity, as a function of the answers to the conditions.
* **`Change.severity_added_eq_breaking_iff`**, **`Change.severity_removed_eq_breaking_iff`**,
  **`Change.severity_model_eq_breaking_iff`**, **`Change.severity_field_eq_breaking_iff`** — which
  changes are breaking by the table; changes of other parts are not.
-/

namespace ContractDrift

namespace Rule

/-! ## The rows in question -/

/-- The rows about a sort of part, a sort of change and a group. -/
def candidates (entity : EntityKind) (kind : ChangeKind) (group : Option Attribute) : List Rule :=
  table.filter fun r =>
    r.entity == entity && r.change == kind && (r.group.isNone || r.group == group)

/-- **The conditions choose among the rows in question.** -/
theorem forChange?_eq (c : Change) : forChange? c =
    decisive? ((candidates c.entity c.kind c.group?).filter fun r =>
      r.condition.all (Condition.holds c)) := by
  rw [forChange?, candidates, List.filter_filter]
  congr 1
  refine List.filter_congr fun r _ => ?_
  rw [applies, Bool.and_comm]

lemma mem_of_decisive? {rules : List Rule} {r : Rule} (h : decisive? rules = some r) :
    r ∈ rules := by
  have fold : ∀ (rest : List Rule) (best : Rule),
      rest.foldl (fun best s => if best.yieldsTo s then s else best) best ∈ best :: rest := by
    intro rest
    induction rest with
    | nil => intro best; simp
    | cons s rest ih =>
        intro best
        rw [List.foldl_cons]
        split
        · exact List.mem_cons_of_mem _ (ih s)
        · rcases List.mem_cons.1 (ih best) with h | h
          · rw [h]
            exact List.mem_cons_self
          · exact List.mem_cons_of_mem _ (List.mem_cons_of_mem _ h)
  cases rules with
  | nil => simp [decisive?] at h
  | cons s rest =>
      obtain rfl := Option.some.inj h
      exact fold rest s

/-- The severity by the table, given which conditions hold. -/
def severityFor (entity : EntityKind) (kind : ChangeKind) (group : Option Attribute)
    (holds : Condition → Bool) : Severity :=
  ((decisive? ((candidates entity kind group).filter fun r => r.condition.all holds)).getD
    unclassified).severity

variable {holds : Condition → Bool}

/-- Breaking rows are about models and fields. -/
lemma entity_of_breaking : ∀ r ∈ table, r.severity = .breaking →
    r.entity = .model ∨ r.entity = .field := by
  decide

lemma severityFor_ne_breaking {entity : EntityKind} {kind : ChangeKind} {group : Option Attribute}
    (hm : entity ≠ .model) (hf : entity ≠ .field) :
    severityFor entity kind group holds ≠ .breaking := by
  intro h
  rw [severityFor] at h
  cases hd : decisive? ((candidates entity kind group).filter fun r => r.condition.all holds) with
  | none => simp [hd, unclassified] at h
  | some r =>
      rw [hd, Option.getD_some] at h
      obtain ⟨hr, hrow⟩ := List.mem_filter.1 (List.mem_filter.1 (mem_of_decisive? hd)).1
      simp only [Bool.and_eq_true, beq_iff_eq] at hrow
      rcases entity_of_breaking r hr h with he | he
      · exact hm (hrow.1.1 ▸ he)
      · exact hf (hrow.1.1 ▸ he)

/-! ## The breaking rows

The table answers as soon as the answers to the few conditions of the rows in question are known.
-/

lemma severityFor_model_removed : severityFor .model .removed none holds = .breaking := rfl

lemma severityFor_model_added : severityFor .model .added none holds = .info := rfl

lemma severityFor_field_removed : severityFor .field .removed none holds = .breaking := rfl

lemma severityFor_field_added_eq_breaking_iff :
    severityFor .field .added none holds = .breaking ↔ holds .fieldMandatory = true := by
  have rows : candidates .field .added none = (fields.drop 1).take 2 := rfl
  rw [severityFor, rows]
  cases ho : holds .fieldOptional <;> cases hm : holds .fieldMandatory <;>
    simp [fields, ho, hm, decisive?, yieldsTo, specificity, Severity.le_iff_rank_le, Severity.rank,
      unclassified]

/-- When the change of a group of a model is breaking. -/
def modelBreaks (holds : Condition → Bool) : Attribute → Bool
  | .type => true
  | .primaryKey => !holds .modelHadNoKey || holds .modelHasNoKey
  | _ => false

/-- When the change of a group of a field is breaking. -/
def fieldBreaks (holds : Condition → Bool) : Attribute → Bool
  | .type => !holds .typeWidened
  | .nullability => holds .nowRequired
  | .uniqueness => holds .noLongerUnique
  | .primaryKey => holds .noLongerPrimary
  | .constraints => !(holds .constraintsTightened || holds .constraintsRelaxed)
  | .references => !(holds .hadNoReference || holds .hasNoReference)
  | _ => false

lemma severityFor_model_modified (holds : Condition → Bool) (g : Attribute) :
    (severityFor .model .modified (some g) holds == .breaking) = modelBreaks holds g := by
  cases g
  case primaryKey =>
    have rows : candidates .model .modified (some .primaryKey) = (models.drop 3).take 3 := rfl
    rw [severityFor, rows, modelBreaks]
    cases ho : holds .modelHadNoKey <;> cases hn : holds .modelHasNoKey <;>
      simp [models, ho, hn, decisive?, yieldsTo, specificity, Severity.le_iff_rank_le,
        Severity.rank]
  all_goals rfl

lemma severityFor_field_modified (holds : Condition → Bool) (g : Attribute)
    (nullability : holds .nowNullable = !holds .nowRequired)
    (uniqueness : holds .noLongerUnique = !holds .nowUnique)
    (primaryKey : holds .noLongerPrimary = !holds .nowPrimary) :
    (severityFor .field .modified (some g) holds == .breaking) = fieldBreaks holds g := by
  cases g
  case type =>
    have rows : candidates .field .modified (some .type) = (fields.drop 3).take 2 := rfl
    rw [severityFor, rows, fieldBreaks]
    cases h : holds .typeWidened <;> simp [fields, h, decisive?, yieldsTo, specificity]
  case nullability =>
    have rows : candidates .field .modified (some .nullability) = (fields.drop 5).take 2 := rfl
    rw [severityFor, rows, fieldBreaks]
    cases h : holds .nowRequired <;> simp [fields, h, nullability, decisive?]
  case uniqueness =>
    have rows : candidates .field .modified (some .uniqueness) = (fields.drop 7).take 2 := rfl
    rw [severityFor, rows, fieldBreaks]
    cases h : holds .nowUnique <;> simp [fields, h, uniqueness, decisive?]
  case primaryKey =>
    have rows : candidates .field .modified (some .primaryKey) = (fields.drop 9).take 2 := rfl
    rw [severityFor, rows, fieldBreaks]
    cases h : holds .nowPrimary <;> simp [fields, h, primaryKey, decisive?]
  case constraints =>
    have rows : candidates .field .modified (some .constraints) = (fields.drop 11).take 3 := rfl
    rw [severityFor, rows, fieldBreaks]
    cases ht : holds .constraintsTightened <;> cases hr : holds .constraintsRelaxed <;>
      simp [fields, ht, hr, decisive?, yieldsTo, specificity, Severity.le_iff_rank_le]
  case references =>
    have rows : candidates .field .modified (some .references) = (fields.drop 14).take 3 := rfl
    rw [severityFor, rows, fieldBreaks]
    cases ho : holds .hadNoReference <;> cases hn : holds .hasNoReference <;>
      simp [fields, ho, hn, decisive?, yieldsTo, specificity, Severity.le_iff_rank_le]
  all_goals rfl

end Rule

/-! ## Breaking changes -/

/-- Whether the change of a group leaves those who use the field without what they rely on. -/
def Field.Breaks (old new : Field) : Attribute → Prop
  | .type => ∀ t ∈ old.dataType?, ∀ u ∈ new.dataType?, t.compatibility u ≠ .widened
  | .nullability => new.attributes.required = true
  | .uniqueness => new.attributes.unique = false
  | .primaryKey => new.attributes.primary = false
  | .constraints => ∀ c ∈ old.constraints?, ∀ d ∈ new.constraints?,
      c.relation d ≠ .narrower ∧ c.relation d ≠ .wider
  | .references => old.attributes.references.isSome = true ∧ new.attributes.references.isSome = true
  | _ => False

namespace Change

/-- The severity that the table gives to a change. -/
def tableSeverity (c : Change) : Severity := ((Rule.forChange? c).getD .unclassified).severity

lemma tableSeverity_eq (c : Change) :
    c.tableSeverity = Rule.severityFor c.entity c.kind c.group? (Condition.holds c) := by
  rw [tableSeverity, Rule.forChange?_eq, Rule.severityFor]

/-- Without overrides a change has the severity of the table. -/
lemma severity_grade_default (c : Change) : (c.grade {}).severity = c.tableSeverity := rfl

/-- A change of a part without others below it is not breaking. -/
lemma severity_ne_breaking {c : Change} (h : c.node.isContainer = false) :
    c.tableSeverity ≠ .breaking := by
  have other : ∀ n : Node, n.isContainer = false → n.entity ≠ .model ∧ n.entity ≠ .field := by
    intro n
    cases n <;> simp [Node.isContainer, Node.entity]
  obtain ⟨hm, hf⟩ := other c.node h
  rw [tableSeverity_eq]
  exact Rule.severityFor_ne_breaking hm hf

variable {p : Path}

/-- **Of the parts that come only a field can break**, one that every record has to have. -/
theorem severity_added_eq_breaking_iff {n : Node} : (added p n).tableSeverity = .breaking ↔
    ∃ f, n = .field f ∧ f.isOmissible = false := by
  cases n
  case field f =>
    rw [tableSeverity_eq]
    refine Rule.severityFor_field_added_eq_breaking_iff.trans ?_
    simp [Condition.holds, newField?, new?]
  case model m =>
    refine iff_of_false (fun h => ?_) (by simp)
    rw [tableSeverity_eq] at h
    exact absurd (Rule.severityFor_model_added.symm.trans h) (by decide)
  all_goals exact iff_of_false (severity_ne_breaking rfl) (by simp)

/-- **Of the parts that go the models and fields break.** -/
theorem severity_removed_eq_breaking_iff {n : Node} : (removed p n).tableSeverity = .breaking ↔
    n.isContainer = true := by
  cases n
  case field f =>
    exact iff_of_true ((tableSeverity_eq _).trans Rule.severityFor_field_removed) rfl
  case model m =>
    exact iff_of_true ((tableSeverity_eq _).trans Rule.severityFor_model_removed) rfl
  all_goals exact iff_of_false (severity_ne_breaking rfl) (by simp [Node.isContainer])

/-- **A model breaks in its type and in its key**, unless it had none and has one now. -/
theorem severity_model_eq_breaking_iff {g : Attribute} {m n : Model} :
    (modified p g (.model m) (.model n)).tableSeverity = .breaking ↔
      g = .type ∨ g = .primaryKey ∧ (m.hasNoKey = false ∨ n.hasNoKey = true) := by
  have h := Rule.severityFor_model_modified (Condition.holds (modified p g (.model m) (.model n))) g
  rw [tableSeverity_eq, ← beq_iff_eq]
  refine (iff_of_eq (congrArg (· = true) h)).trans ?_
  cases g <;> simp [Rule.modelBreaks, Condition.holds, oldModel?, newModel?, old?, new?]

/-- **A field breaks in the groups that `Field.Breaks` names.** -/
theorem severity_field_eq_breaking_iff {g : Attribute} {f f' : Field} :
    (modified p g (.field f) (.field f')).tableSeverity = .breaking ↔ f.Breaks f' g := by
  have new : ∀ test : Field → Bool,
      (modified p g (.field f) (.field f')).newField?.any test = test f' := fun _ => rfl
  have h := Rule.severityFor_field_modified (Condition.holds (modified p g (.field f) (.field f')))
    g (by simp [Condition.holds, new]) (by simp [Condition.holds, new])
    (by simp [Condition.holds, new])
  rw [tableSeverity_eq, ← beq_iff_eq]
  refine (iff_of_eq (congrArg (· = true) h)).trans ?_
  cases g
  case type =>
    cases f <;> cases f' <;>
      simp [Rule.fieldBreaks, Field.Breaks, Condition.holds, oldField?, newField?, old?, new?,
        Field.dataType?]
  case constraints =>
    cases f <;> cases f' <;>
      simp [Rule.fieldBreaks, Field.Breaks, Condition.holds, constraintsRelation?, oldField?,
        newField?, old?, new?, Field.constraints?]
  all_goals
    simp [Rule.fieldBreaks, Field.Breaks, Condition.holds, oldField?, newField?, old?, new?]

end Change

end ContractDrift
