import ContractDrift.Changelog.Basic
import Mathlib.Data.List.Infix

/-!
# What a changelog leaves out

A changelog holds the graded changes of a comparison except those *covered* by a container above
them that came or went as a whole in the same way.  Which ones these are depends on the changes
only, not on their grades, and the order of a changelog does not matter to its gate.

* `Change.IsCovered` — the change is covered by another one of a list.
* `Path.exists_first_above` — of the beginnings of a path with a property there is a first one;
  nothing above it covers it.
* **`Contract.mem_changelog_iff`** — the changes of a changelog.
* **`Contract.passes_iff`** — what the gate asks.
-/

namespace ContractDrift

namespace Path

lemma isAbove_iff {p q : Path} : p.isAbove q = true ↔ p <+: q ∧ p ≠ q := by
  rw [isAbove, Bool.and_eq_true, decide_eq_true_iff, List.isPrefixOf_iff_prefix]
  constructor
  · rintro ⟨hlt, hpre⟩
    exact ⟨hpre, fun h => absurd hlt (by simp [h])⟩
  · rintro ⟨hpre, hne⟩
    refine ⟨lt_of_le_of_ne hpre.length_le fun h => hne (hpre.eq_of_length h), hpre⟩

lemma exists_first_above {P : Path → Prop} (q : Path) (h : P q) :
    ∃ p, p <+: q ∧ P p ∧ ∀ r, r <+: p → r ≠ p → ¬ P r := by
  by_cases hq : ∃ r, r <+: q ∧ r ≠ q ∧ P r
  · obtain ⟨r, hr, hne, hP⟩ := hq
    have : r.length < q.length :=
      lt_of_le_of_ne hr.length_le fun h => hne (hr.eq_of_length h)
    obtain ⟨p, hp, hPp, hfirst⟩ := exists_first_above r hP
    exact ⟨p, hp.trans hr, hPp, hfirst⟩
  · exact ⟨q, List.prefix_rfl, h, fun r hr hne hP => hq ⟨r, hr, hne, hP⟩⟩
termination_by q.length

end Path

namespace Change

/-- A container above the change came or went as a whole, in the same way as the change. -/
def IsCovered (all : List Change) (c : Change) : Prop :=
  ∃ h ∈ all, h.kind ≠ .modified ∧ h.node.isContainer = true ∧ h.kind = c.kind ∧
    h.path <+: c.path ∧ h.path ≠ c.path

variable {all : List Change} {p : Path}

lemma not_isCovered_modified {g : Attribute} {m n : Node} : ¬ (modified p g m n).IsCovered all :=
  fun ⟨_, _, hne, _, hk, _⟩ => hne hk

lemma isCovered_added_iff {n : Node} : (added p n).IsCovered all ↔
    ∃ q m, added q m ∈ all ∧ m.isContainer = true ∧ q <+: p ∧ q ≠ p := by
  constructor
  · rintro ⟨h, hmem, _, hcont, hk, hpre, hne⟩
    cases h with
    | added q m => exact ⟨q, m, hmem, hcont, hpre, hne⟩
    | removed q m => cases hk
    | modified q g m k => cases hk
  · rintro ⟨q, m, hmem, hcont, hpre, hne⟩
    exact ⟨added q m, hmem, by simp [kind], hcont, rfl, hpre, hne⟩

lemma isCovered_removed_iff {n : Node} : (removed p n).IsCovered all ↔
    ∃ q m, removed q m ∈ all ∧ m.isContainer = true ∧ q <+: p ∧ q ≠ p := by
  constructor
  · rintro ⟨h, hmem, _, hcont, hk, hpre, hne⟩
    cases h with
    | added q m => cases hk
    | removed q m => exact ⟨q, m, hmem, hcont, hpre, hne⟩
    | modified q g m k => cases hk
  · rintro ⟨q, m, hmem, hcont, hpre, hne⟩
    exact ⟨removed q m, hmem, by simp [kind], hcont, rfl, hpre, hne⟩

end Change

/-- Covering looks at the changes, not at their grades. -/
theorem Changelog.isCovered_grade_iff {settings : ChangelogSettings} {all : List Change}
    {c : Change} : isCovered (all.map (Change.grade settings)) (c.grade settings) = true ↔
      c.IsCovered all := by
  simp only [isCovered, List.any_map, List.any_eq_true, Function.comp_apply, Bool.and_eq_true,
    beq_iff_eq, Path.isAbove_iff, GradedChange.isWholeContainer, bne_iff_ne, Change.grade,
    Change.IsCovered, and_assoc]

namespace Contract

variable {old new : Contract} {settings : ChangelogSettings}

/-- **A changelog holds the graded changes that are not covered.** -/
theorem mem_changelog_iff {g : GradedChange} : g ∈ (old.changelog new settings).changes ↔
    ∃ c ∈ (old.compare new).changes, ¬ c.IsCovered (old.compare new).changes ∧
      c.grade settings = g := by
  rw [changelog, Changelog.ofGraded, Changelog.sorted, List.mem_mergeSort, Changelog.uncovered,
    List.mem_filter, List.mem_map]
  constructor
  · rintro ⟨⟨c, hc, rfl⟩, hcov⟩
    rw [Bool.not_eq_true', Bool.eq_false_iff, Ne, Changelog.isCovered_grade_iff] at hcov
    exact ⟨c, hc, hcov, rfl⟩
  · rintro ⟨c, hc, hcov, rfl⟩
    rw [Bool.not_eq_true', Bool.eq_false_iff, Ne, Changelog.isCovered_grade_iff]
    exact ⟨⟨c, hc, rfl⟩, hcov⟩

/-- **The gate passes** exactly if no change that is not covered has the severity or more. -/
theorem passes_iff {failOn : Severity} : (old.changelog new settings).passes failOn = true ↔
    ∀ c ∈ (old.compare new).changes, ¬ c.IsCovered (old.compare new).changes →
      ¬ failOn ≤ (c.grade settings).severity := by
  rw [Changelog.passes, Bool.not_eq_true', List.any_eq_false]
  simp only [decide_eq_true_eq, mem_changelog_iff]
  exact ⟨fun h c hc hcov => h _ ⟨c, hc, hcov, rfl⟩, fun h _ ⟨c, hc, hcov, hg⟩ => hg ▸ h c hc hcov⟩

end Contract

end ContractDrift
