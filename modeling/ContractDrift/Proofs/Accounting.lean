import ContractDrift.Proofs.Covering
import ContractDrift.Proofs.Grading
import Mathlib.Data.List.Forall2

/-!
# What a changelog accounts for

A changelog is put together in three steps: every change is graded, what a container covers is left
out, and the rest is sorted.  Covering does not look at grades and sorting keeps every entry as
often as it is there, so the entries are the uncovered changes with their grades, each as often as
the comparison lists it.

* `GradedChange.IsGradeOf` — the rule is the one that the table chooses, the severity is the one of
  the settings for this rule if there is one and otherwise the rule's own.
* `Changelog.uncovered_map_grade` — leaving out covered changes before or after grading.
* **`Contract.changelog_accounting`** — the entries of a changelog, and its gate.
-/

namespace ContractDrift

variable {settings : ChangelogSettings} {c : Change} {g : GradedChange}

/-! ## Grades -/

/-- The entry is the change with the rule of the table for it and the severity of this rule, where
the settings may replace the severity. -/
structure GradedChange.IsGradeOf (settings : ChangelogSettings) (c : Change) (g : GradedChange) :
    Prop where
  change : g.change = c
  rule : Rule.forChange? c = some g.rule
  severity : g.severity = (settings.override? g.rule.id).getD g.rule.severity

lemma GradedChange.IsGradeOf.eq_grade (h : g.IsGradeOf settings c) : c.grade settings = g := by
  obtain ⟨change, severity, rule⟩ := g
  obtain ⟨hc, hr, hs⟩ := h
  simp only at hc hr hs
  simp only [Change.grade, hr, Option.getD_some, hc, hs]

lemma Contract.isGradeOf_grade {old new : Contract} (h : c ∈ (old.compare new).changes) :
    (c.grade settings).IsGradeOf settings c := by
  obtain ⟨r, hr⟩ := exists_forChange? h
  exact ⟨rfl, by simp only [Change.grade, hr, Option.getD_some], rfl⟩

/-! ## Entries -/

instance (all : List Change) (c : Change) : Decidable (c.IsCovered all) :=
  inferInstanceAs (Decidable (∃ h ∈ all, h.kind ≠ .modified ∧ h.node.isContainer = true ∧
    h.kind = c.kind ∧ h.path <+: c.path ∧ h.path ≠ c.path))

/-- It does not matter whether covered changes are left out before or after grading. -/
lemma Changelog.uncovered_map_grade (all : List Change) :
    uncovered (all.map (Change.grade settings)) =
      (all.filter fun c => ¬ c.IsCovered all).map (Change.grade settings) := by
  rw [uncovered, List.filter_map]
  refine congrArg (List.map _) (List.filter_congr fun c _ => ?_)
  rw [Function.comp_apply, Bool.eq_iff_iff, Bool.not_eq_true', ← Bool.not_eq_true,
    isCovered_grade_iff, decide_eq_true_iff]

namespace Contract

variable {old new : Contract}

/-- Sorting keeps the entries. -/
lemma changes_changelog_perm : (old.changelog new settings).changes.Perm
    (((old.compare new).changes.filter fun c => ¬ c.IsCovered (old.compare new).changes).map
      (Change.grade settings)) := by
  rw [changelog, Changelog.ofGraded, Changelog.uncovered_map_grade]
  exact List.mergeSort_perm _ _

lemma forall₂_isGradeOf_map {l : List Change} (h : ∀ c ∈ l, c ∈ (old.compare new).changes) :
    List.Forall₂ (GradedChange.IsGradeOf settings) l (l.map (Change.grade settings)) :=
  List.forall₂_map_right_iff.2 (List.forall₂_same.2 fun c hc => isGradeOf_grade (h c hc))

/-- Without their grades the entries are the uncovered changes. -/
lemma map_change_changelog_perm (old new : Contract) (settings : ChangelogSettings) :
    ((old.changelog new settings).changes.map GradedChange.change).Perm
      ((old.compare new).changes.filter fun c => ¬ c.IsCovered (old.compare new).changes) := by
  have ungrade : GradedChange.change ∘ Change.grade settings = id := rfl
  refine (changes_changelog_perm.map _).trans (.of_eq ?_)
  rw [List.map_map, ungrade, List.map_id]

/-- A difference of a part that stayed is never left out. -/
lemma modified_changelog_perm :
    (((old.changelog new settings).changes.map GradedChange.change).filter
      (·.kind = .modified)).Perm ((old.compare new).changes.filter (·.kind = .modified)) := by
  refine ((map_change_changelog_perm old new settings).filter _).trans ?_
  rw [List.filter_filter]
  refine .of_eq (List.filter_congr fun c _ => ?_)
  have kept : c.kind = .modified → ¬ c.IsCovered (old.compare new).changes := by
    rintro hk ⟨h, _, hne, _, hkind, _⟩
    exact hne (hkind.trans hk)
  simpa using kept

/-- **A changelog neither loses nor repeats nor invents a change.**  Its entries are, in some order,
the grades of the changes that no container covers; every difference of a part that stayed is among
them; the gate fails exactly on one that is severe enough. -/
theorem changelog_accounting (old new : Contract) (settings : ChangelogSettings) :
    (∃ graded, List.Forall₂ (GradedChange.IsGradeOf settings)
        ((old.compare new).changes.filter fun c => ¬ c.IsCovered (old.compare new).changes) graded ∧
      (old.changelog new settings).changes.Perm graded) ∧
    (((old.changelog new settings).changes.map GradedChange.change).filter
      (·.kind = .modified)).Perm ((old.compare new).changes.filter (·.kind = .modified)) ∧
    ∀ failOn, (old.changelog new settings).passes failOn = false ↔
      ∃ c ∈ (old.compare new).changes, ¬ c.IsCovered (old.compare new).changes ∧
        ∃ g, GradedChange.IsGradeOf settings c g ∧ failOn ≤ g.severity := by
  refine ⟨⟨_, forall₂_isGradeOf_map fun c hc => (List.mem_filter.1 hc).1,
    changes_changelog_perm⟩, modified_changelog_perm, fun failOn => ?_⟩
  rw [← Bool.not_eq_true, passes_iff]
  push Not
  constructor
  · rintro ⟨c, hc, hcov, hle⟩
    exact ⟨c, hc, hcov, _, isGradeOf_grade hc, hle⟩
  · rintro ⟨c, hc, hcov, g, hg, hle⟩
    exact ⟨c, hc, hcov, hg.eq_grade ▸ hle⟩

end Contract

end ContractDrift
