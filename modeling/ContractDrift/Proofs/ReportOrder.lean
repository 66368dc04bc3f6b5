import ContractDrift.Proofs.Changes
import ContractDrift.Changelog.Basic

/-!
# The order of reports

A changelog compares two entries by five keys, one after another: the severity of their paths, the
sort of part, the path, their own severity and the group.  Each key is compared linearly, so the
whole is a preorder, and sorting gives an ascending list.  A comparison has one change for each path
and group, so two of its entries that no key tells apart are one entry; then the ascending list is
determined by its entries.

* `Path.compare`, `Changelog.order` — instances of `Std.TransCmp`.
* `Changelog.Distinguished` — no two entries share path and group;
  `Contract.distinguished_grade` — the entries of a comparison are distinguished.
* **`Changelog.eq_sorted`** — an ascending list of distinguished entries is the sorted one.
* **`Changelog.filter_sorted`** — picking entries by their paths before or after sorting.
-/

namespace ContractDrift

open Std (TransCmp OrientedCmp)

/-! ## Paths -/

namespace Path

lemma isLE_compare_iff {p q : Path} : (p.compare q).isLE = true ↔ p ≤ q := by
  rw [compare]
  split
  · rename_i h
    exact iff_of_true rfl (Std.le_of_lt h)
  · split
    · rename_i _ h
      exact iff_of_false (by decide) (Std.not_le.2 h)
    · rename_i _ h
      exact iff_of_true rfl (Std.not_lt.1 h)

lemma compare_eq_eq_iff {p q : Path} : p.compare q = .eq ↔ p = q := by
  rw [compare]
  split
  · rename_i h
    refine iff_of_false (by decide) ?_
    rintro rfl
    exact Std.lt_irrefl h
  · split
    · rename_i _ h
      refine iff_of_false (by decide) ?_
      rintro rfl
      exact Std.lt_irrefl h
    · rename_i h₁ h₂
      exact iff_of_true rfl (Std.le_antisymm (Std.not_lt.1 h₂) (Std.not_lt.1 h₁))

instance : TransCmp compare where
  eq_swap {p q} := by
    rcases Std.lt_trichotomy p q with h | rfl | h
    · simp [compare, h, Std.not_gt_of_lt h]
    · simp [compare_eq_eq_iff.2]
    · simp [compare, h, Std.not_gt_of_lt h]
  isLE_trans hpq hqr := by
    rw [isLE_compare_iff] at *
    exact Std.le_trans hpq hqr

end Path

lemma Attribute.rank_injective : Function.Injective rank := by
  intro a b h
  cases a <;> cases b <;> first | rfl | cases h

/-! ## Entries -/

namespace Changelog

variable {all : List GradedChange} {g h : GradedChange}

/-- Two values compared the other way round by a number that each of them has. -/
instance {α : Type} (f : α → ℕ) : TransCmp fun a b => compare (f b) (f a) :=
  @TransCmp.opposite α (compareOn f) inferInstance

/-- Two values compared by a path that each of them has. -/
instance {α : Type} (f : α → Path) : TransCmp fun a b => (f a).compare (f b) where
  eq_swap := OrientedCmp.eq_swap
  isLE_trans := fun {_ _ _} => @TransCmp.isLE_trans _ Path.compare _ _ _ _

/-- The order of reports goes by its five keys. -/
lemma order_eq_compareLex (all : List GradedChange) : order all =
    compareLex (fun g h => compare (pathSeverity all h.change.path).rank
        (pathSeverity all g.change.path).rank)
      (compareLex (compareOn fun g => g.change.entity.rank)
        (compareLex (fun g h => g.change.path.compare h.change.path)
          (compareLex (fun g h => compare h.severity.rank g.severity.rank)
            (compareOn fun g => g.change.group?.map Attribute.rank)))) := rfl

/-- **The order of reports is a preorder.** -/
instance (all : List GradedChange) : TransCmp (order all) := by
  rw [order_eq_compareLex]
  infer_instance

/-- What no key tells apart is about the same group at the same path. -/
lemma path_eq_and_group?_eq (heq : order all g h = .eq) :
    g.change.path = h.change.path ∧ g.change.group? = h.change.group? := by
  simp only [order, Ordering.then_eq_eq] at heq
  obtain ⟨_, _, hpath, _, hgroup⟩ := heq
  refine ⟨Path.compare_eq_eq_iff.1 hpath, ?_⟩
  exact Option.map_injective Attribute.rank_injective (Std.LawfulEqOrd.eq_of_compare hgroup)

lemma ne_gt_eq_isLE (o : Ordering) : (o != .gt) = o.isLE := by
  cases o <;> rfl

/-- Sorting gives an ascending list. -/
lemma pairwise_sorted (all : List GradedChange) :
    (sorted all).Pairwise fun g h => (order all g h).isLE = true := by
  simp only [sorted, ne_gt_eq_isLE]
  refine List.pairwise_mergeSort (fun _ _ _ => TransCmp.isLE_trans) (fun g h => ?_) all
  have swap : order all h g = (order all g h).swap := OrientedCmp.eq_swap
  rw [Bool.or_eq_true, swap]
  cases order all g h <;> simp

/-! ## Distinguished entries -/

/-- No two entries are about the same group at the same path. -/
def Distinguished (all : List GradedChange) : Prop :=
  ∀ g ∈ all, ∀ h ∈ all, g.change.path = h.change.path → g.change.group? = h.change.group? → g = h

lemma Distinguished.filter (hall : Distinguished all) (p : GradedChange → Bool) :
    Distinguished (all.filter p) := fun g hg h hh =>
  hall g (List.mem_filter.1 hg).1 h (List.mem_filter.1 hh).1

/-- **Distinguished entries have one ascending list.** -/
theorem eq_sorted {l : List GradedChange} (hall : Distinguished all) (hperm : l.Perm all)
    (hl : l.Pairwise fun g h => (order all g h).isLE = true) : l = sorted all := by
  have hsorted : (sorted all).Perm all := List.mergeSort_perm _ _
  refine List.Perm.eq_of_pairwise ?_ hl (pairwise_sorted all) (hperm.trans hsorted.symm)
  intro g h hg hh hgh hhg
  obtain ⟨hpath, hgroup⟩ := path_eq_and_group?_eq (OrientedCmp.isLE_antisymm hgh hhg)
  exact hall g (hperm.mem_iff.1 hg) h (hsorted.mem_iff.1 hh) hpath hgroup

/-! ## Entries picked by their paths -/

section Filter

variable (P : Path → Bool)

/-- What is picked has all the entries of its paths, so the severities of its paths stay. -/
lemma pathSeverity_filter {p : Path} (hp : P p = true) :
    pathSeverity (all.filter (P ·.change.path)) p = pathSeverity all p := by
  rw [pathSeverity, List.filter_filter, pathSeverity]
  congr 1
  refine List.filter_congr fun g _ => ?_
  by_cases hg : g.change.path = p
  · simp [hg, hp]
  · simp [hg]

lemma order_filter (hg : P g.change.path = true) (hh : P h.change.path = true) :
    order (all.filter (P ·.change.path)) g h = order all g h := by
  rw [order, pathSeverity_filter P hg, pathSeverity_filter P hh, order]

/-- **Picking entries by their paths before or after sorting.** -/
theorem filter_sorted (hall : Distinguished all) :
    (sorted all).filter (P ·.change.path) = sorted (all.filter (P ·.change.path)) := by
  refine eq_sorted (hall.filter _) ((List.mergeSort_perm _ _).filter _) ?_
  refine ((pairwise_sorted all).filter _).imp_of_mem fun hg hh hgh => ?_
  rwa [order_filter P (List.mem_filter.1 hg).2 (List.mem_filter.1 hh).2]

/-- Picking entries by their paths before or after leaving out what is covered, if with an entry the
containers above it are picked. -/
lemma filter_uncovered (above : ∀ g ∈ all, P g.change.path = true → ∀ h ∈ all,
      h.isWholeContainer = true → h.change.path.isAbove g.change.path = true →
        P h.change.path = true) :
    (uncovered all).filter (P ·.change.path) = uncovered (all.filter (P ·.change.path)) := by
  rw [uncovered, uncovered, List.filter_filter, List.filter_filter]
  refine List.filter_congr fun g hg => ?_
  by_cases hP : P g.change.path = true
  · have hcovered : isCovered (all.filter (P ·.change.path)) g = isCovered all g := by
      rw [isCovered, isCovered, List.any_filter, Bool.eq_iff_iff, List.any_eq_true,
        List.any_eq_true]
      refine exists_congr fun h => and_congr_right fun hh => ?_
      simp only [Bool.and_eq_true, and_iff_right_iff_imp]
      exact fun hcover => above g hg hP h hh hcover.1.1 hcover.2
    rw [hP, hcovered, Bool.true_and, Bool.and_true]
  · rw [Bool.not_eq_true] at hP
    rw [hP, Bool.false_and, Bool.and_false]

end Filter

end Changelog

/-! ## The entries of a comparison -/

namespace Comparison

/-- The changes at a path are told apart by their groups. -/
lemma eq_of_mem_changesAt {p : Path} {m n : Option Node} {c d : Change}
    (hc : c ∈ changesAt p m n) (hd : d ∈ changesAt p m n) (h : c.group? = d.group?) : c = d := by
  cases m <;> cases n
  · exact absurd hc List.not_mem_nil
  · exact (List.mem_singleton.1 hc).trans (List.mem_singleton.1 hd).symm
  · exact (List.mem_singleton.1 hc).trans (List.mem_singleton.1 hd).symm
  · obtain ⟨_, _, rfl⟩ := List.mem_map.1 hc
    obtain ⟨_, _, rfl⟩ := List.mem_map.1 hd
    cases h
    rfl

end Comparison

namespace Contract

variable {old new : Contract}

/-- A comparison has one change for each path and group. -/
lemma eq_of_mem_changes {c d : Change} (hc : c ∈ (old.compare new).changes)
    (hd : d ∈ (old.compare new).changes) (hpath : c.path = d.path) (hgroup : c.group? = d.group?) :
    c = d := by
  rw [mem_changes_iff] at hc hd
  rw [hpath] at hc
  exact Comparison.eq_of_mem_changesAt hc hd hgroup

lemma distinguished_grade (settings : ChangelogSettings) :
    Changelog.Distinguished ((old.compare new).changes.map (Change.grade settings)) := by
  intro g hg h hh hpath hgroup
  obtain ⟨c, hc, rfl⟩ := List.mem_map.1 hg
  obtain ⟨d, hd, rfl⟩ := List.mem_map.1 hh
  rw [eq_of_mem_changes hc hd hpath hgroup]

end Contract

end ContractDrift
