import ContractDrift.Proofs.Changes
import ContractDrift.Proofs.Classification
import ContractDrift.Proofs.DistinctNames

/-!
# Every change has a rule

The fallback of the classification is never used.  A comparison names only groups that belong to
the sort of part (`EntityKind.groups`), and for each of them the table has a row without a
condition, or two rows of which one always applies: a field that came can be left out or not, and
a flag that changed is now set or not.

* `Rule.exists_forChange?` — a change for which a row applies has a rule.
* `Node.mem_groups_of_mem_differences` — parts differ in groups of their sort.
* **`Contract.exists_forChange?`** — every change of a comparison has a rule.
* `Node.differencesOr` — the differences of two parts with a free answer for parts of two sorts.
* **`Contract.changes_classified`** — this answer is never given, and the rule of a change is a row
  of the table about its sort of part and its sort of change.
-/

namespace ContractDrift

/-! ## Groups -/

lemma Attribute.mem_when {a g : Attribute} {differs : Bool} :
    g ∈ a.when differs ↔ g = a ∧ differs = true := by
  cases differs <;> simp [Attribute.when]

/-- The groups in which parts of a sort can differ. -/
def EntityKind.groups : EntityKind → List Attribute
  | .model => [.type, .primaryKey, .description, .metadata]
  | .field =>
    [.type, .nullability, .uniqueness, .primaryKey, .constraints, .references, .default,
      .description, .metadata]
  | .qualityRule => [.type, .threshold, .parameters, .description]
  | .server => [.type, .parameters, .description]
  | .metadata => [.description, .metadata]

lemma Field.mem_groups_of_mem_differences {f f' : Field} {g : Attribute}
    (h : g ∈ f.differences f') : g ∈ EntityKind.field.groups := by
  rcases List.mem_append.1 h with h | h
  · cases f <;> cases f' <;> simp only [shapeDifferences, List.mem_append, Attribute.mem_when,
      List.mem_singleton] at h
    · rcases h with ⟨rfl, _⟩ | ⟨rfl, _⟩ <;> decide
    · subst h; decide
    · subst h; decide
    · obtain ⟨rfl, _⟩ := h; decide
  · simp only [FieldAttributes.differences, List.mem_append, Attribute.mem_when] at h
    rcases h with (((((⟨rfl, _⟩ | ⟨rfl, _⟩) | ⟨rfl, _⟩) | ⟨rfl, _⟩) | ⟨rfl, _⟩) | ⟨rfl, _⟩) |
      ⟨rfl, _⟩ <;> decide

/-- **Two parts of one sort differ in groups of that sort.** -/
theorem Node.mem_groups_of_mem_differences {m n : Node} {g : Attribute} (hs : m.sort = n.sort)
    (h : g ∈ m.differences n) : g ∈ m.entity.groups := by
  cases m <;> cases n <;> try cases hs
  case field.field => exact Field.mem_groups_of_mem_differences h
  all_goals
    simp only [differences, Identity.differences, Server.differences, Model.differences,
      QualityRule.differences, List.mem_append, Attribute.mem_when] at h
    simp only [entity, EntityKind.groups, List.mem_cons, List.not_mem_nil, or_false]
    tauto

/-! ## Rows -/

namespace Rule

lemma isSome_decisive? {rules : List Rule} (h : rules ≠ []) : (decisive? rules).isSome = true := by
  cases rules with
  | nil => exact absurd rfl h
  | cons r rest => rfl

/-- A change has a rule as soon as one of the rows in question applies. -/
theorem exists_forChange? {c : Change} {r : Rule}
    (hr : r ∈ candidates c.entity c.kind c.group?)
    (hc : r.condition.all (Condition.holds c) = true) : ∃ s, forChange? c = some s := by
  rw [← Option.isSome_iff_exists, forChange?_eq]
  exact isSome_decisive? (List.ne_nil_of_mem (List.mem_filter.2 ⟨hr, hc⟩))

/-- A row without a condition is enough. -/
lemma exists_forChange?_of_unconditional {c : Change}
    (h : ∃ r ∈ candidates c.entity c.kind c.group?, r.condition = none) :
    ∃ s, forChange? c = some s := by
  obtain ⟨r, hr, hnone⟩ := h
  exact exists_forChange? hr (by rw [hnone]; rfl)

/-- Of two rows with opposite conditions one applies. -/
lemma exists_forChange?_of_opposite {c : Change} {k l : Condition} (rows : List Rule)
    (hrows : candidates c.entity c.kind c.group? = rows)
    (hk : ∃ r ∈ rows, r.condition = some k) (hl : ∃ r ∈ rows, r.condition = some l)
    (opposite : k.holds c = !l.holds c) : ∃ s, forChange? c = some s := by
  subst hrows
  obtain ⟨r, hr, hrk⟩ := hk
  obtain ⟨s, hs, hsl⟩ := hl
  cases h : l.holds c with
  | true => exact exists_forChange? hs (by rw [hsl]; exact h)
  | false => exact exists_forChange? hr (by rw [hrk]; exact opposite.trans (by rw [h]; rfl))

lemma unconditional_removed (e : EntityKind) :
    ∃ r ∈ candidates e .removed none, r.condition = none := by
  cases e <;> decide

lemma unconditional_added {e : EntityKind} (h : e ≠ .field) :
    ∃ r ∈ candidates e .added none, r.condition = none := by
  cases e <;> first | exact absurd rfl h | decide

/-- The groups of a field that are one flag have no row without a condition. -/
lemma unconditional_modified {e : EntityKind} {g : Attribute} (hg : g ∈ e.groups)
    (flags : e = .field → g ≠ .nullability ∧ g ≠ .uniqueness ∧ g ≠ .primaryKey) :
    ∃ r ∈ candidates e .modified (some g), r.condition = none := by
  revert g
  cases e <;> decide

end Rule

namespace Change

variable {p : Path}

lemma exists_forChange?_added (n : Node) : ∃ r, Rule.forChange? (added p n) = some r := by
  cases n with
  | field f =>
      have opposite : Condition.fieldMandatory.holds (added p (.field f)) =
          !Condition.fieldOptional.holds (added p (.field f)) := rfl
      exact Rule.exists_forChange?_of_opposite (Rule.candidates .field .added none) rfl
        (by decide) (by decide) opposite
  | info _ | terms _ | server _ | model _ | quality _ =>
      exact Rule.exists_forChange?_of_unconditional
        (Rule.unconditional_added (by simp [entity, node, Node.entity]))

/-- A flag of a field is set now or it is not. -/
lemma exists_forChange?_flag {f f' : Field} {g : Attribute}
    (hg : g = .nullability ∨ g = .uniqueness ∨ g = .primaryKey) :
    ∃ r, Rule.forChange? (modified p g (.field f) (.field f')) = some r := by
  have new : ∀ test : Field → Bool,
      (modified p g (.field f) (.field f')).newField?.any test = test f' := fun _ => rfl
  have rows : ∀ k l : Condition,
      (∃ r ∈ Rule.candidates .field .modified (some g), r.condition = some k) →
      (∃ r ∈ Rule.candidates .field .modified (some g), r.condition = some l) →
      k.holds (modified p g (.field f) (.field f')) =
        !l.holds (modified p g (.field f) (.field f')) →
      ∃ r, Rule.forChange? (modified p g (.field f) (.field f')) = some r :=
    fun _ _ => Rule.exists_forChange?_of_opposite _ rfl
  rcases hg with rfl | rfl | rfl
  · exact rows .nowNullable .nowRequired (by decide) (by decide)
      (by simp only [Condition.holds, new])
  · exact rows .noLongerUnique .nowUnique (by decide) (by decide)
      (by simp only [Condition.holds, new])
  · exact rows .noLongerPrimary .nowPrimary (by decide) (by decide)
      (by simp only [Condition.holds, new])

lemma exists_forChange?_modified {m n : Node} {g : Attribute} (hs : m.sort = n.sort)
    (hg : g ∈ m.differences n) : ∃ r, Rule.forChange? (modified p g m n) = some r := by
  have hgroups := Node.mem_groups_of_mem_differences hs hg
  by_cases flags : m.entity = .field → g ≠ .nullability ∧ g ≠ .uniqueness ∧ g ≠ .primaryKey
  · exact Rule.exists_forChange?_of_unconditional (Rule.unconditional_modified hgroups flags)
  · obtain ⟨he, hflag⟩ := Classical.not_imp.1 flags
    cases m with
    | field f =>
        cases n <;> try cases hs
        rename_i f'
        exact exists_forChange?_flag (by tauto)
    | info _ | terms _ | server _ | model _ | quality _ => cases he

end Change

namespace Contract

/-- **Every change has a rule of the table**, also between contracts in which names repeat. -/
theorem exists_forChange? {a b : Contract} {c : Change} (h : c ∈ (a.compare b).changes) :
    ∃ r, Rule.forChange? c = some r := by
  cases c with
  | added p n => exact Change.exists_forChange?_added n
  | removed p n =>
      exact Rule.exists_forChange?_of_unconditional (Rule.unconditional_removed n.entity)
  | modified p g m n =>
      obtain ⟨hm, hn, hg⟩ := modified_mem_iff.1 h
      exact Change.exists_forChange?_modified (sort_eq_of_modified hm hn) hg

end Contract

/-! ## What is never answered -/

/-- The groups in which two parts differ, where `other` is the answer for parts of two sorts. -/
def Node.differencesOr (other : List Attribute) : Node → Node → List Attribute
  | .info old, .info new => old.differences new
  | .terms old, .terms new => Attribute.metadata.when (old != new)
  | .server old, .server new => old.differences new
  | .model old, .model new => old.differences new
  | .field old, .field new => old.differences new
  | .quality old, .quality new => old.differences new
  | _, _ => other

/-- Between parts of one sort the answer for two sorts is not given. -/
lemma Node.differencesOr_eq {m n : Node} (h : m.sort = n.sort) (other : List Attribute) :
    m.differencesOr other n = m.differences n := by
  cases m <;> cases n <;> first | rfl | cases h

namespace Rule

/-- The rule of a change is a row of the table that is about the change. -/
lemma mem_table_of_forChange? {c : Change} {r : Rule} (h : forChange? c = some r) :
    r ∈ table ∧ r.entity = c.entity ∧ r.change = c.kind := by
  obtain ⟨hr, happlies⟩ := List.mem_filter.1 (mem_of_decisive? h)
  simp only [applies, Bool.and_eq_true, beq_iff_eq] at happlies
  exact ⟨hr, happlies.1.1⟩

lemma id_ne_unclassified : ∀ r ∈ table, r.id ≠ unclassified.id := by
  decide

end Rule

namespace Contract

/-- **Every change is classified by the table.**  Whatever the names of two contracts are, and also
if they repeat, a path leads to parts of one sort in both, so their comparison never comes to the
answer for two sorts.  Each change has a rule; it is the one that the change is graded by, a row of
the table and not the fallback, and it is about the sort of part and the sort of change. -/
theorem changes_classified (old new : Contract) (settings : ChangelogSettings) :
    (∀ p m n, old.index.get? p = some m → new.index.get? p = some n →
      m.sort = n.sort ∧ ∀ other, m.differencesOr other n = m.differences n) ∧
    ∀ c ∈ (old.compare new).changes,
      Rule.forChange? c = some (c.grade settings).rule ∧
      (c.grade settings).rule ∈ Rule.table ∧
      (c.grade settings).rule.id ≠ Rule.unclassified.id ∧
      (c.grade settings).rule.entity = c.entity ∧
      (c.grade settings).rule.change = c.kind := by
  constructor
  · intro p m n hm hn
    have hs := sort_eq_of_modified hm hn
    exact ⟨hs, Node.differencesOr_eq hs⟩
  · intro c hc
    obtain ⟨r, hr⟩ := exists_forChange? hc
    have hgrade : (c.grade settings).rule = r := by
      simp only [Change.grade, hr, Option.getD_some]
    obtain ⟨hmem, hentity, hkind⟩ := Rule.mem_table_of_forChange? hr
    rw [hgrade]
    exact ⟨hr, hmem, Rule.id_ne_unclassified r hmem, hentity, hkind⟩

/-- A field `quality` with a rule `fields` and two fields `quality` inside, of which the second one
gets a wider type. -/
theorem changes_classified_of_field_quality :
    let owner (type : DataType) : Field :=
      .nested { name := "quality", quality := [{ name := some "fields", kind := .text }] } .object
        [.plain "quality" .string, .plain "quality" type]
    let change : Change :=
      .modified ["models", "orders", "fields", "quality", "fields", "quality"] .type
        (.field (.plain "quality" .int)) (.field (.plain "quality" .long))
    change ∈ ((single [owner .int]).compare (single [owner .long])).changes ∧
      (change.grade {}).rule ∈ Rule.table ∧ (change.grade {}).rule.entity = .field ∧
      (change.grade {}).rule.change = .modified := by
  intro owner change
  have last : ∀ type, (single [owner type]).index.get? change.path =
      some (.field (.plain "quality" type)) := by
    intro type
    rw [index, Entries.get?_ofList]
    rfl
  have hc : change ∈ ((single [owner .int]).compare (single [owner .long])).changes :=
    modified_mem_iff.2 ⟨last .int, last .long, by decide⟩
  obtain ⟨_, hmem, _, hentity, hkind⟩ := (changes_classified _ _ {}).2 change hc
  exact ⟨hc, hmem, hentity, hkind⟩

end Contract

end ContractDrift
