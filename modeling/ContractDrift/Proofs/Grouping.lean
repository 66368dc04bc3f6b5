import ContractDrift.Changelog.Basic
import Mathlib.Data.List.Chain
import Mathlib.Data.List.Forall2
import Mathlib.Data.List.Nodup
import Mathlib.Tactic.Lemma

/-!
# Putting the changes of a path together

The groups of a changelog are its neighbours of one path.  They are determined by three facts: one
after another they are the changelog, each is about its path, and the next one is about another path
(`ChangeGroup.IsGrouping`).

A group of neighbours is all that a changelog has about a path only if the changelog leads to no
path twice, and its severity is that of its first change, whatever comes after.  Both are right for
a changelog that is *gathered*, and a gathered changelog stays so when the changes below a severity
are taken away: a group either goes as a whole or keeps its first change.

* `Changelog.isGrouping_groupChanges`, **`Changelog.groupChanges_eq_of_isGrouping`** — the groups
  and nothing else are a grouping.
* `Changelog.IsGathered` — a path has one group, which begins with its most severe change, and the
  most severe groups come first; `Changelog.IsGathered.changes_eq` — a group has all changes of its
  path.
* **`Changelog.IsGathered.groups_filter`** — the groups of what is left from a severity on.
-/

namespace ContractDrift

variable {l rest : List GradedChange} {groups : List ChangeGroup} {k : ChangeGroup}
  {g : GradedChange}

/-! ## Neighbours of one path -/

namespace ChangeGroup

/-- One after another the groups are the list, each is about its path, and the next one is about
another path. -/
structure IsGrouping (groups : List ChangeGroup) (l : List GradedChange) : Prop where
  changes : groups.flatMap ChangeGroup.changes = l
  uniform : ∀ k ∈ groups, ∀ g ∈ k.changes, g.change.path = k.path
  separate : groups.IsChain fun k j => k.path ≠ j.path

lemma first_mem_changes (k : ChangeGroup) : k.first ∈ k.changes := List.mem_cons_self

lemma IsGrouping.mem_iff (h : IsGrouping groups l) : g ∈ l ↔ ∃ k ∈ groups, g ∈ k.changes := by
  rw [← h.changes, List.mem_flatMap]

/-- What holds along the list holds between the groups. -/
lemma IsGrouping.pairwise_first {R : GradedChange → GradedChange → Prop} (h : IsGrouping groups l)
    (hl : l.Pairwise R) : groups.Pairwise fun k j => R k.first j.first := by
  rw [← h.changes, List.pairwise_flatMap] at hl
  exact hl.2.imp fun hkj => hkj _ (first_mem_changes _) _ (first_mem_changes _)

/-- What holds along the list holds inside of each group. -/
lemma IsGrouping.pairwise_changes {R : GradedChange → GradedChange → Prop}
    (h : IsGrouping groups l) (hl : l.Pairwise R) (hk : k ∈ groups) : k.changes.Pairwise R := by
  rw [← h.changes, List.pairwise_flatMap] at hl
  exact hl.1 k hk

end ChangeGroup

open ChangeGroup (IsGrouping first_mem_changes)

namespace Changelog

/-- **The groups of a list are a grouping of it.** -/
theorem isGrouping_groupChanges (l : List GradedChange) : IsGrouping (groupChanges l) l := by
  induction l with
  | nil => exact ⟨rfl, by simp [groupChanges], .nil⟩
  | cons g rest ih =>
      obtain ⟨changes, uniform, separate⟩ := ih
      rw [groupChanges]
      cases hgroups : groupChanges rest with
      | nil =>
          rw [hgroups] at changes
          subst changes
          exact ⟨rfl, by simp [ChangeGroup.changes, ChangeGroup.path], .singleton _⟩
      | cons h groups =>
          rw [hgroups] at changes uniform separate
          rw [List.forall_mem_cons] at uniform
          dsimp only
          split
          · rename_i hpath
            refine ⟨congrArg (g :: ·) changes, List.forall_mem_cons.2 ⟨?_, uniform.2⟩, ?_⟩
            · refine List.forall_mem_cons.2 ⟨rfl, fun i hi => ?_⟩
              exact (uniform.1 i hi).trans hpath.symm
            · -- the first group has another change in front, but the path that it had
              have hfirst : ∀ j ∈ groups.head?, g.change.path ≠ j.path := fun j hj =>
                hpath ▸ (List.isChain_cons.1 separate).1 j hj
              exact List.isChain_cons.2 ⟨hfirst, separate.tail⟩
          · rename_i hpath
            refine ⟨congrArg (g :: ·) changes, List.forall_mem_cons.2 ⟨?_, ?_⟩, ?_⟩
            · simp [ChangeGroup.changes, ChangeGroup.path]
            · exact List.forall_mem_cons.2 uniform
            · exact List.isChain_cons_cons.2 ⟨hpath, separate⟩

/-- A run of one path in front of a list is a group of its own, if the list goes on with another
path. -/
lemma groupChanges_append {tail : List GradedChange}
    (huniform : ∀ h ∈ rest, h.change.path = g.change.path)
    (hnext : ∀ k ∈ (groupChanges tail).head?, g.change.path ≠ k.path) :
    groupChanges (g :: rest ++ tail) = ⟨g, rest⟩ :: groupChanges tail := by
  induction rest generalizing g with
  | nil =>
      rw [List.cons_append, List.nil_append, groupChanges]
      cases hgroups : groupChanges tail with
      | nil => rfl
      | cons k groups =>
          rw [hgroups] at hnext
          exact if_neg (hnext k rfl)
  | cons h rest ih =>
      obtain ⟨hpath, huniform⟩ := List.forall_mem_cons.1 huniform
      have hgroups := ih (g := h) (fun i hi => (huniform i hi).trans hpath.symm)
        (fun k hk => hpath ▸ hnext k hk)
      rw [List.cons_append, groupChanges, hgroups]
      exact if_pos hpath.symm

/-- **There is no other grouping of a list.** -/
theorem groupChanges_eq_of_isGrouping (h : IsGrouping groups l) : groupChanges l = groups := by
  induction groups generalizing l with
  | nil =>
      rw [← h.changes]
      rfl
  | cons k groups ih =>
      obtain ⟨changes, uniform, separate⟩ := h
      rw [List.forall_mem_cons] at uniform
      rw [List.isChain_cons] at separate
      have hgroups := ih ⟨rfl, uniform.2, separate.2⟩
      rw [← changes, List.flatMap_cons, ChangeGroup.changes, groupChanges_append, hgroups]
      · exact fun i hi => uniform.1 i (List.mem_cons_of_mem _ hi)
      · rw [hgroups]
        exact separate.1

/-! ## Gathered changelogs -/

variable {c : Changelog} {s : Severity}

lemma isGrouping_groups (c : Changelog) : IsGrouping c.groups c.changes :=
  isGrouping_groupChanges _

/-- No two groups are about one path, the first change of a group is its most severe one, and the
most severe groups come first. -/
structure IsGathered (c : Changelog) : Prop where
  distinct : (c.groups.map ChangeGroup.path).Nodup
  greatest : ∀ k ∈ c.groups, ∀ g ∈ k.changes, g.severity ≤ k.severity
  descending : c.groups.Pairwise fun k j => j.severity ≤ k.severity

/-- The paths of the groups are those of the changes. -/
lemma mem_paths_groups_iff {p : Path} :
    p ∈ c.groups.map ChangeGroup.path ↔ ∃ g ∈ c.changes, g.change.path = p := by
  rw [List.mem_map]
  constructor
  · rintro ⟨k, hk, rfl⟩
    exact ⟨k.first, c.isGrouping_groups.mem_iff.2 ⟨k, hk, first_mem_changes k⟩, rfl⟩
  · rintro ⟨g, hg, rfl⟩
    obtain ⟨k, hk, hgk⟩ := c.isGrouping_groups.mem_iff.1 hg
    exact ⟨k, hk, (c.isGrouping_groups.uniform k hk g hgk).symm⟩

/-- **A group has all changes of its path.** -/
theorem changes_eq_filter (distinct : (c.groups.map ChangeGroup.path).Nodup) (hk : k ∈ c.groups) :
    k.changes = c.changes.filter (·.change.path = k.path) := by
  have uniform := c.isGrouping_groups.uniform
  rw [← c.isGrouping_groups.changes, List.filter_flatMap]
  obtain ⟨before, after, hgroups⟩ := List.append_of_mem hk
  rw [hgroups] at distinct uniform ⊢
  have other : ∀ j ∈ before ++ after, j.changes.filter (·.change.path = k.path) = [] := by
    intro j hj
    refine List.filter_eq_nil_iff.2 fun g hg => ?_
    have hj' : j ∈ before ++ k :: after :=
      (List.sublist_cons_self k after).append_left before |>.subset hj
    rw [uniform j hj' g hg, decide_eq_true_iff]
    -- the path of `k` is at its own place only
    rw [List.map_append, List.map_cons, List.nodup_middle, List.nodup_cons, ← List.map_append]
      at distinct
    exact fun hpath => distinct.1 (hpath ▸ List.mem_map_of_mem hj)
  have own : k.changes.filter (·.change.path = k.path) = k.changes :=
    List.filter_eq_self.2 fun g hg => decide_eq_true (uniform k (by simp) g hg)
  rw [List.flatMap_append, List.flatMap_cons, own,
    List.flatMap_eq_nil_iff.2 fun j hj => other j (List.mem_append_left _ hj),
    List.flatMap_eq_nil_iff.2 fun j hj => other j (List.mem_append_right _ hj), List.nil_append,
    List.append_nil]

end Changelog

/-! ## From a severity on -/

namespace ChangeGroup

variable {s : Severity} {j : ChangeGroup}

/-- The group without the changes below a severity behind its first one. -/
def atLeast (s : Severity) (k : ChangeGroup) : ChangeGroup :=
  { k with rest := k.rest.filter fun g => s ≤ g.severity }

/-- The group `j` is the group `k` without its changes below a severity. -/
structure IsRestriction (s : Severity) (k j : ChangeGroup) : Prop where
  changes : j.changes = k.changes.filter fun g => s ≤ g.severity
  path : j.path = k.path
  entity : j.entity = k.entity
  severity : j.severity = k.severity

lemma isRestriction_atLeast (h : s ≤ k.severity) : IsRestriction s k (k.atLeast s) where
  changes := by
    have hfirst : decide (s ≤ k.first.severity) = true := decide_eq_true h
    rw [ChangeGroup.changes, ChangeGroup.changes, List.filter_cons, if_pos hfirst]
    rfl
  path := rfl
  entity := rfl
  severity := rfl

end ChangeGroup

namespace Changelog

variable {c : Changelog} {s : Severity}

/-- The changes from a severity on are those of the groups that have the severity. -/
lemma flatMap_atLeast {groups : List ChangeGroup}
    (greatest : ∀ k ∈ groups, ∀ g ∈ k.changes, g.severity ≤ k.severity) :
    ((groups.filter fun k => s ≤ k.severity).map (ChangeGroup.atLeast s)).flatMap
        ChangeGroup.changes =
      (groups.flatMap ChangeGroup.changes).filter fun g => s ≤ g.severity := by
  induction groups with
  | nil => rfl
  | cons k groups ih =>
      obtain ⟨hk, hgroups⟩ := List.forall_mem_cons.1 greatest
      rw [List.flatMap_cons, List.filter_append, ← ih hgroups, List.filter_cons]
      split
      · rename_i hs
        rw [List.map_cons, List.flatMap_cons,
          (ChangeGroup.isRestriction_atLeast (of_decide_eq_true hs)).changes]
      · rename_i hs
        have below : (k.changes.filter fun g => s ≤ g.severity) = [] := by
          refine List.filter_eq_nil_iff.2 fun g hg hle => hs (decide_eq_true ?_)
          exact Severity.le_trans (of_decide_eq_true hle) (hk g hg)
        rw [below, List.nil_append]

namespace IsGathered

lemma changes_eq (h : c.IsGathered) (hk : k ∈ c.groups) :
    k.changes = c.changes.filter (·.change.path = k.path) :=
  changes_eq_filter h.distinct hk

/-- **From a severity on the groups are those that have the severity**, each without what is below
it. -/
theorem groups_filter (h : c.IsGathered) (s : Severity) : (c.filter s).groups =
    (c.groups.filter fun k => s ≤ k.severity).map (ChangeGroup.atLeast s) := by
  refine groupChanges_eq_of_isGrouping ⟨?_, ?_, ?_⟩
  · rw [flatMap_atLeast h.greatest, c.isGrouping_groups.changes]
    rfl
  · rw [List.forall_mem_map]
    intro k hk g hg
    obtain ⟨hk, hs⟩ := List.mem_filter.1 hk
    rw [(ChangeGroup.isRestriction_atLeast (of_decide_eq_true hs)).changes] at hg
    exact c.isGrouping_groups.uniform k hk g (List.mem_filter.1 hg).1
  · rw [List.isChain_map]
    exact ((List.pairwise_map.1 h.distinct).filter _).isChain

lemma isRestriction_groups_filter (h : c.IsGathered) (s : Severity) :
    List.Forall₂ (ChangeGroup.IsRestriction s) (c.groups.filter fun k => s ≤ k.severity)
      (c.filter s).groups := by
  rw [h.groups_filter, List.forall₂_map_right_iff, List.forall₂_same]
  exact fun k hk =>
    ChangeGroup.isRestriction_atLeast (of_decide_eq_true (List.mem_filter.1 hk).2)

/-- **A gathered changelog stays gathered.** -/
theorem filter (h : c.IsGathered) (s : Severity) : (c.filter s).IsGathered where
  distinct := by
    rw [h.groups_filter, List.map_map]
    exact h.distinct.sublist (List.filter_sublist.map _)
  greatest := by
    rw [h.groups_filter, List.forall_mem_map]
    intro k hk g hg
    obtain ⟨hk, hs⟩ := List.mem_filter.1 hk
    rw [(ChangeGroup.isRestriction_atLeast (of_decide_eq_true hs)).changes] at hg
    exact h.greatest k hk g (List.mem_filter.1 hg).1
  descending := by
    rw [h.groups_filter, List.pairwise_map]
    exact h.descending.filter _

end IsGathered

end Changelog

end ContractDrift
