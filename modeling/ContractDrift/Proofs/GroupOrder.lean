import ContractDrift.Proofs.Frame
import ContractDrift.Proofs.Grouping

/-!
# The order of a changelog and its groups

The first three keys of the order of reports are the same for all entries of a path, so that sorting
brings them together, and the last two order them.  The first key is the greatest severity at the
path, which is therefore the severity of the first entry there.  With these a sorted list has one
group for each path (`Proofs/Grouping`).

* `Changelog.pathSeverity_perm`, **`Changelog.ofGraded_perm`** — the order in which entries are
  given is forgotten.
* `Changelog.pathOrder` — the first three keys; `Changelog.HasOneEntity` — the entries of a path are
  about one sort of part.
* `Node.nodup_differences`, `Contract.pairwise_group?_changes` — a comparison names a group of
  attributes once at a path.
* **`Contract.changelog_gathered_in_order`** — the groups of a changelog, their order, and what is
  left of them from a severity on.
-/

namespace ContractDrift

open Std (TransCmp OrientedCmp)

variable {all others : List GradedChange} {g h : GradedChange} {p : Path}

/-! ## The severity of a path -/

namespace Changelog

/-- The greatest severity so far and those to come. -/
lemma le_foldl_max (all : List GradedChange) (s : Severity) :
    s ≤ all.foldl (fun s g => s.max g.severity) s ∧
      ∀ g ∈ all, g.severity ≤ all.foldl (fun s g => s.max g.severity) s := by
  induction all generalizing s with
  | nil => exact ⟨Nat.le_refl s.rank, by simp⟩
  | cons g rest ih =>
      obtain ⟨hs, hrest⟩ := ih (s.max g.severity)
      refine ⟨Severity.le_trans (Severity.le_max_left _ _) hs, List.forall_mem_cons.2 ⟨?_, hrest⟩⟩
      exact Severity.le_trans (Severity.le_max_right _ _) hs

lemma foldl_max_eq_or (all : List GradedChange) (s : Severity) :
    all.foldl (fun s g => s.max g.severity) s = s ∨
      ∃ g ∈ all, g.severity = all.foldl (fun s g => s.max g.severity) s := by
  induction all generalizing s with
  | nil => exact .inl rfl
  | cons g rest ih =>
      rw [List.foldl_cons]
      rcases ih (s.max g.severity) with heq | ⟨h, hh, heq⟩
      · rw [heq]
        exact (Severity.max_eq_or s g.severity).imp_right fun hg =>
          ⟨g, List.mem_cons_self, hg.symm⟩
      · exact .inr ⟨h, List.mem_cons_of_mem _ hh, heq⟩

lemma severity_le_pathSeverity (hg : g ∈ all) :
    g.severity ≤ pathSeverity all g.change.path :=
  (le_foldl_max _ _).2 g (List.mem_filter.2 ⟨hg, beq_self_eq_true _⟩)

/-- **Some entry has the severity of its path.** -/
lemma exists_severity_eq_pathSeverity (hg : g ∈ all) : ∃ h ∈ all,
    h.change.path = g.change.path ∧ h.severity = pathSeverity all g.change.path := by
  rcases foldl_max_eq_or (all.filter (·.change.path == g.change.path)) .info with heq | ⟨h, hh, heq⟩
  · -- nothing is above `info`, so that `g` itself has it
    refine ⟨g, hg, rfl, Severity.le_antisymm (severity_le_pathSeverity hg) ?_⟩
    rw [pathSeverity, heq]
    exact Severity.info_le _
  · obtain ⟨hh, hpath⟩ := List.mem_filter.1 hh
    exact ⟨h, hh, eq_of_beq hpath, heq⟩

/-! ## The order of what is given -/

lemma pathSeverity_perm (hperm : all.Perm others) (p : Path) :
    pathSeverity all p = pathSeverity others p :=
  (hperm.filter _).foldl_eq' (fun g _ h _ s => Severity.max_right_comm s g.severity h.severity) _

lemma order_perm (hperm : all.Perm others) : order all = order others := by
  funext g h
  rw [order, order, pathSeverity_perm hperm, pathSeverity_perm hperm]

lemma uncovered_perm (hperm : all.Perm others) : (uncovered all).Perm (uncovered others) := by
  have covered : isCovered all = isCovered others := funext fun g => hperm.any_eq
  rw [uncovered, uncovered, covered]
  exact hperm.filter _

/-- **A changelog forgets in which order its entries were given.** -/
theorem ofGraded_perm (hall : Distinguished all) (hperm : others.Perm all) :
    ofGraded others = ofGraded all := by
  have huncovered := uncovered_perm hperm
  rw [ofGraded, ofGraded, Changelog.mk.injEq]
  refine eq_sorted (hall.filter _) ((List.mergeSort_perm _ _).trans huncovered) ?_
  rw [← order_perm huncovered]
  exact pairwise_sorted _

/-! ## Entries of one path -/

/-- The entries of a path are about one sort of part. -/
def HasOneEntity (all : List GradedChange) : Prop :=
  ∀ g ∈ all, ∀ h ∈ all, g.change.path = h.change.path → g.change.entity = h.change.entity

/-- The first three keys of the order of reports, which are about the path. -/
def pathOrder (all : List GradedChange) : GradedChange → GradedChange → Ordering :=
  compareLex (fun g h => compare (pathSeverity all h.change.path).rank
      (pathSeverity all g.change.path).rank)
    (compareLex (compareOn fun g => g.change.entity.rank)
      (fun g h => g.change.path.compare h.change.path))

instance (all : List GradedChange) : TransCmp (pathOrder all) := by
  rw [pathOrder]
  infer_instance

/-- By the first three keys one group comes before another one. -/
def IsBefore (all : List GradedChange) (k j : ChangeGroup) : Prop :=
  pathOrder all k.first j.first = .lt

instance (all : List GradedChange) : Trans (IsBefore all) (IsBefore all) (IsBefore all) :=
  ⟨TransCmp.lt_trans⟩

lemma order_eq_pathOrder_then : order all g h = (pathOrder all g h).then
    ((compare h.severity.rank g.severity.rank).then
      (compare (g.change.group?.map Attribute.rank) (h.change.group?.map Attribute.rank))) := by
  simp only [order, pathOrder, compareLex, compareOn, Ordering.then_assoc]

lemma pathOrder_eq_eq (hpath : g.change.path = h.change.path)
    (hentity : g.change.entity = h.change.entity) : pathOrder all g h = .eq := by
  simp only [pathOrder, compareLex, compareOn, hpath, hentity, Ordering.then_eq_eq,
    Std.ReflCmp.compare_self, and_self]

/-- Between two paths the first three keys decide. -/
lemma pathOrder_eq_lt (hle : (order all g h).isLE = true) (hpath : g.change.path ≠ h.change.path) :
    pathOrder all g h = .lt := by
  rw [order_eq_pathOrder_then] at hle
  cases horder : pathOrder all g h with
  | lt => rfl
  | eq =>
      simp only [pathOrder, compareLex, Ordering.then_eq_eq, Path.compare_eq_eq_iff] at horder
      exact absurd horder.2.2 hpath
  | gt =>
      rw [horder] at hle
      cases hle

end Changelog

/-- Of two entries of a path the more severe one precedes the other, and of two that are equally
severe the one about the earlier group of attributes. -/
def GradedChange.Precedes (g h : GradedChange) : Prop :=
  h.severity.rank < g.severity.rank ∨ g.severity = h.severity ∧
    g.change.group?.map Attribute.rank < h.change.group?.map Attribute.rank

/-- Of two groups the more severe one precedes the other, then the one for the earlier sort of part,
then the one of the lesser path. -/
def ChangeGroup.Precedes (k j : ChangeGroup) : Prop :=
  j.severity.rank < k.severity.rank ∨ k.severity = j.severity ∧
    (k.entity.rank < j.entity.rank ∨ k.entity = j.entity ∧ k.path < j.path)

lemma EntityKind.rank_injective : Function.Injective rank := by
  intro a b h
  cases a <;> cases b <;> first | rfl | cases h

/-- The group is all that a changelog has about its path: the severity is the greatest one there,
and the entries are in order. -/
structure ChangeGroup.Collects (log : Changelog) (k : ChangeGroup) : Prop where
  changes : k.changes = log.changes.filter (·.change.path = k.path)
  entity : ∀ g ∈ k.changes, g.change.entity = k.entity
  attained : ∃ g ∈ k.changes, g.severity = k.severity
  greatest : ∀ g ∈ k.changes, g.severity ≤ k.severity
  ordered : k.changes.Pairwise GradedChange.Precedes

/-- What is not there comes first. -/
lemma compare_option_eq_lt_iff {a b : Option ℕ} : compare a b = .lt ↔ a < b := by
  cases a <;> cases b <;> simp [compare]

lemma Path.lt_of_compare_eq_lt {p q : Path} (h : p.compare q = .lt) : p < q := by
  unfold compare at h
  split at h
  · assumption
  · split at h <;> cases h

/-! ## The groups of sorted entries -/

/-- What holds between neighbours beside what holds throughout. -/
lemma isChain_and_of_pairwise {α : Type} {R S : α → α → Prop} {l : List α} (hR : l.Pairwise R)
    (hS : l.IsChain S) : l.IsChain fun a b => R a b ∧ S a b := by
  induction hS with
  | nil => exact .nil
  | singleton a => exact .singleton a
  | cons_cons hab _ ih =>
      rw [List.pairwise_cons] at hR
      exact List.isChain_cons_cons.2 ⟨⟨hR.1 _ List.mem_cons_self, hab⟩, ih hR.2⟩

namespace Changelog

section Groups

variable {k : ChangeGroup}

lemma sorted_perm (all : List GradedChange) : (sorted all).Perm all := List.mergeSort_perm _ _

/-- **The first three keys order the groups.** -/
theorem pairwise_isBefore (all : List GradedChange) :
    (groupChanges (sorted all)).Pairwise (IsBefore all) := by
  have hgrouping := isGrouping_groupChanges (sorted all)
  have hfirst := hgrouping.pairwise_first (pairwise_sorted all)
  refine ((isChain_and_of_pairwise hfirst hgrouping.separate).imp ?_).pairwise
  exact fun k j ⟨hle, hpath⟩ => pathOrder_eq_lt hle hpath

lemma mem_of_mem_groups (hk : k ∈ groupChanges (sorted all)) (hg : g ∈ k.changes) : g ∈ all :=
  (sorted_perm all).mem_iff.1 ((isGrouping_groupChanges _).mem_iff.2 ⟨k, hk, hg⟩)

variable (hone : HasOneEntity all)

include hone

lemma entity_eq_of_mem_changes (hk : k ∈ groupChanges (sorted all)) (hg : g ∈ k.changes) :
    g.change.entity = k.entity :=
  hone g (mem_of_mem_groups hk hg) k.first (mem_of_mem_groups hk (ChangeGroup.first_mem_changes k))
    ((isGrouping_groupChanges _).uniform k hk g hg)

/-- Sorting brings the entries of a path together. -/
lemma nodup_paths_groupChanges :
    ((groupChanges (sorted all)).map ChangeGroup.path).Nodup := by
  rw [List.Nodup, List.pairwise_map]
  refine (pairwise_isBefore all).imp_of_mem fun {k j} hk hj hbefore hpath => ?_
  have hentity := hone k.first (mem_of_mem_groups hk (ChangeGroup.first_mem_changes k)) j.first
    (mem_of_mem_groups hj (ChangeGroup.first_mem_changes j)) hpath
  rw [IsBefore, pathOrder_eq_eq hpath hentity] at hbefore
  cases hbefore

/-- In a group the last two keys decide. -/
lemma pairwise_changes_group (hk : k ∈ groupChanges (sorted all)) :
    k.changes.Pairwise fun g h => ((compare h.severity.rank g.severity.rank).then
      (compare (g.change.group?.map Attribute.rank)
        (h.change.group?.map Attribute.rank))).isLE = true := by
  have hgrouping := isGrouping_groupChanges (sorted all)
  refine (hgrouping.pairwise_changes (pairwise_sorted all) hk).imp_of_mem fun {g h} hg hh hle => ?_
  have hpath := (hgrouping.uniform k hk g hg).trans (hgrouping.uniform k hk h hh).symm
  have hentity := (entity_eq_of_mem_changes hone hk hg).trans
    (entity_eq_of_mem_changes hone hk hh).symm
  rwa [order_eq_pathOrder_then, pathOrder_eq_eq hpath hentity] at hle

/-- **A group begins with its most severe entry.** -/
theorem severity_le_of_mem_changes (hk : k ∈ groupChanges (sorted all)) (hg : g ∈ k.changes) :
    g.severity ≤ k.severity := by
  rcases List.mem_cons.1 hg with rfl | hg
  · exact Nat.le_refl _
  · have hle := (List.pairwise_cons.1 (pairwise_changes_group hone hk)).1 g hg
    rw [Ordering.isLE_then_iff_and, Nat.isLE_compare] at hle
    exact hle.1

end Groups

section Gathered

variable {k : ChangeGroup}

lemma HasOneEntity.uncovered (hone : HasOneEntity all) : HasOneEntity (uncovered all) :=
  fun g hg h hh => hone g (List.mem_filter.1 hg).1 h (List.mem_filter.1 hh).1

/-- The severity of a group is the greatest one at its path. -/
lemma pathSeverity_path (hone : HasOneEntity all) (hk : k ∈ groupChanges (sorted all)) :
    pathSeverity all k.path = k.severity := by
  have hgrouping := isGrouping_groupChanges (sorted all)
  have hfirst := mem_of_mem_groups hk (ChangeGroup.first_mem_changes k)
  refine Severity.le_antisymm ?_ (severity_le_pathSeverity hfirst)
  obtain ⟨g, hg, hpath, hseverity⟩ := exists_severity_eq_pathSeverity hfirst
  have hgk : g ∈ k.changes := by
    rw [changes_eq_filter (c := ⟨sorted all⟩) (nodup_paths_groupChanges hone) hk, List.mem_filter]
    exact ⟨(sorted_perm all).mem_iff.2 hg, decide_eq_true hpath⟩
  have hle := severity_le_of_mem_changes hone hk hgk
  rwa [hseverity] at hle

/-- **The groups are in order.** -/
theorem pairwise_precedes (hone : HasOneEntity all) :
    (groupChanges (sorted all)).Pairwise ChangeGroup.Precedes := by
  refine (pairwise_isBefore all).imp_of_mem fun {k j} hk hj hbefore => ?_
  have hkp : pathSeverity all k.first.change.path = k.severity := pathSeverity_path hone hk
  have hjp : pathSeverity all j.first.change.path = j.severity := pathSeverity_path hone hj
  simp only [IsBefore, pathOrder, compareLex, compareOn, hkp, hjp, Ordering.then_eq_lt,
    Nat.compare_eq_lt, Nat.compare_eq_eq] at hbefore
  rcases hbefore with hlt | ⟨heq, hlt | ⟨hentity, hpath⟩⟩
  · exact .inl hlt
  · exact .inr ⟨(Severity.rank_injective heq).symm, .inl hlt⟩
  · exact .inr ⟨(Severity.rank_injective heq).symm,
      .inr ⟨EntityKind.rank_injective hentity, Path.lt_of_compare_eq_lt hpath⟩⟩

/-- **A changelog is gathered.** -/
theorem isGathered_ofGraded (hone : HasOneEntity all) : (ofGraded all).IsGathered where
  distinct := nodup_paths_groupChanges hone.uncovered
  greatest _ hk _ hg := severity_le_of_mem_changes hone.uncovered hk hg
  descending := by
    refine (pairwise_precedes hone.uncovered).imp ?_
    rintro k j (hlt | ⟨heq, _⟩)
    · exact Nat.le_of_lt hlt
    · exact heq ▸ Nat.le_refl _

/-- Entries told apart by their groups of attributes are strictly in order. -/
lemma pairwise_precedes_changes (hone : HasOneEntity all)
    (hgroups : all.Pairwise fun g h => g.change.path = h.change.path →
      g.change.group? ≠ h.change.group?) (hk : k ∈ groupChanges (sorted all)) :
    k.changes.Pairwise GradedChange.Precedes := by
  have hgrouping := isGrouping_groupChanges (sorted all)
  have hsorted := ((sorted_perm all).pairwise_iff
    (fun h hpath hgroup => h hpath.symm hgroup.symm)).2 hgroups
  refine ((pairwise_changes_group hone hk).and
    (hgrouping.pairwise_changes hsorted hk)).imp_of_mem ?_
  rintro g h hg hh ⟨hle, hne⟩
  have hpath := (hgrouping.uniform k hk g hg).trans (hgrouping.uniform k hk h hh).symm
  rcases Ordering.isLE_iff_eq_lt_or_eq_eq.1 hle with hlt | heq
  · rw [Ordering.then_eq_lt, Nat.compare_eq_lt, Nat.compare_eq_eq, compare_option_eq_lt_iff] at hlt
    exact hlt.imp_right fun ⟨hseverity, hgroup⟩ =>
      ⟨(Severity.rank_injective hseverity).symm, hgroup⟩
  · rw [Ordering.then_eq_eq] at heq
    exact absurd (Option.map_injective Attribute.rank_injective
      (Std.LawfulEqOrd.eq_of_compare heq.2)) (hne hpath)

end Gathered

end Changelog

/-! ## The groups of a comparison -/

namespace Attribute

variable {l others : List Attribute}

lemma when_sublist (a : Attribute) (differs : Bool) : (a.when differs).Sublist [a] := by
  cases differs
  · exact List.nil_sublist _
  · exact List.Sublist.refl _

lemma append_when_sublist (a : Attribute) (differs : Bool) (h : l.Sublist others) :
    (l ++ a.when differs).Sublist (others ++ [a]) := h.append (when_sublist a differs)

end Attribute

open Attribute (when_sublist append_when_sublist)

lemma Field.shapeDifferences_sublist (f g : Field) :
    (f.shapeDifferences g).Sublist [.type, .constraints] := by
  unfold shapeDifferences
  split
  · exact append_when_sublist _ _ (when_sublist _ _)
  · exact (when_sublist _ _).trans (List.sublist_append_left [_] [_])
  · exact List.sublist_append_left [_] [_]

lemma FieldAttributes.differences_sublist (a b : FieldAttributes) : (a.differences b).Sublist
    [.nullability, .uniqueness, .primaryKey, .references, .default, .description, .metadata] :=
  append_when_sublist _ _ <| append_when_sublist _ _ <| append_when_sublist _ _ <|
    append_when_sublist _ _ <| append_when_sublist _ _ <| append_when_sublist _ _ <|
      when_sublist _ _

/-- **No group of attributes is listed twice.** -/
theorem Node.nodup_differences (m n : Node) : (m.differences n).Nodup := by
  unfold differences
  split
  case h_1 =>
    exact (append_when_sublist _ _ (when_sublist _ _)).nodup (by decide)
  case h_2 => exact (when_sublist _ _).nodup (by decide)
  case h_3 =>
    exact (append_when_sublist _ _ (append_when_sublist _ _ (when_sublist _ _))).nodup (by decide)
  case h_4 =>
    exact (append_when_sublist _ _ (append_when_sublist _ _ (append_when_sublist _ _
      (when_sublist _ _)))).nodup (by decide)
  case h_5 f g =>
    exact ((f.shapeDifferences_sublist g).append
      (f.attributes.differences_sublist g.attributes)).nodup (by decide)
  case h_6 =>
    exact (append_when_sublist _ _ (append_when_sublist _ _ (append_when_sublist _ _
      (when_sublist _ _)))).nodup (by decide)
  case h_7 => exact List.nodup_singleton _

namespace Contract

variable {old new : Contract} {settings : ChangelogSettings}

/-- **A comparison names a group of attributes once at a path.** -/
theorem pairwise_group?_changes (old new : Contract) : (old.compare new).changes.Pairwise
    fun c d => c.path = d.path → c.group? ≠ d.group? := by
  rw [compare, Comparison.between, List.pairwise_flatMap]
  constructor
  · intro p _
    cases old.index.get? p with
    | none => cases new.index.get? p <;> simp [Comparison.changesAt]
    | some m =>
        cases new.index.get? p with
        | none => exact List.pairwise_singleton _ _
        | some n =>
            refine List.pairwise_map.2 ((m.nodup_differences n).imp fun hne _ hgroup => hne ?_)
            exact Option.some.inj hgroup
  · refine (old.index.keys.union new.index.keys).ascending.imp fun hlt c hc d hd hcd => ?_
    rw [Comparison.path_of_mem_changesAt hc, Comparison.path_of_mem_changesAt hd] at hcd
    exact absurd (hcd ▸ hlt) Std.lt_irrefl

lemma pairwise_group?_uncovered (old new : Contract) (settings : ChangelogSettings) :
    (Changelog.uncovered ((old.compare new).changes.map (Change.grade settings))).Pairwise
      fun g h => g.change.path = h.change.path → g.change.group? ≠ h.change.group? :=
  (List.pairwise_map.2 (pairwise_group?_changes old new)).filter _

/-- What stands at a path is of the sort for which the path is. -/
lemma hasOneEntity_grade (old new : Contract) (settings : ChangelogSettings) :
    Changelog.HasOneEntity ((old.compare new).changes.map (Change.grade settings)) := by
  intro g hg h hh hpath
  obtain ⟨c, hc, rfl⟩ := List.mem_map.1 hg
  obtain ⟨d, hd, rfl⟩ := List.mem_map.1 hh
  have hsort := sort?_of_mem_changes hc
  rw [show c.path = d.path from hpath, sort?_of_mem_changes hd] at hsort
  exact Node.entity_eq_of_sort_eq (Option.some.inj hsort).symm

/-- The changelog of a comparison is gathered. -/
lemma isGathered_changelog (old new : Contract) (settings : ChangelogSettings) :
    (old.changelog new settings).IsGathered :=
  Changelog.isGathered_ofGraded (hasOneEntity_grade old new settings)

lemma collects_of_mem_groups {k : ChangeGroup} (hk : k ∈ (old.changelog new settings).groups) :
    k.Collects (old.changelog new settings) where
  changes := (isGathered_changelog old new settings).changes_eq hk
  entity _ hg :=
    Changelog.entity_eq_of_mem_changes (hasOneEntity_grade old new settings).uncovered hk hg
  attained := ⟨k.first, ChangeGroup.first_mem_changes k, rfl⟩
  greatest := (isGathered_changelog old new settings).greatest k hk
  ordered := Changelog.pairwise_precedes_changes
    (hasOneEntity_grade old new settings).uncovered (pairwise_group?_uncovered old new settings) hk

/-- **A changelog in order.**  It forgets in which order the graded changes were given.  It has one
group for each path that an entry is about; the group has all entries of the path, in order, and
their greatest severity; the groups are in order; and from a severity on what is left are the groups
that have the severity, each without its entries below it. -/
theorem changelog_gathered_in_order (old new : Contract) (settings : ChangelogSettings) :
    (∀ graded, graded.Perm ((old.compare new).changes.map (Change.grade settings)) →
      Changelog.ofGraded graded = old.changelog new settings) ∧
    (((old.changelog new settings).groups.map ChangeGroup.path).Nodup ∧
      ∀ p, p ∈ (old.changelog new settings).groups.map ChangeGroup.path ↔
        ∃ g ∈ (old.changelog new settings).changes, g.change.path = p) ∧
    (∀ k ∈ (old.changelog new settings).groups, k.Collects (old.changelog new settings)) ∧
    (old.changelog new settings).groups.Pairwise ChangeGroup.Precedes ∧
    ∀ s, List.Forall₂ (ChangeGroup.IsRestriction s)
      ((old.changelog new settings).groups.filter fun k => s ≤ k.severity)
      ((old.changelog new settings).filter s).groups := by
  have gathered := isGathered_changelog old new settings
  refine ⟨fun graded hperm => ?_, ⟨gathered.distinct, fun p => Changelog.mem_paths_groups_iff⟩,
    fun k hk => collects_of_mem_groups hk, ?_, gathered.isRestriction_groups_filter⟩
  · exact Changelog.ofGraded_perm (distinguished_grade settings) hperm
  · exact Changelog.pairwise_precedes (hasOneEntity_grade old new settings).uncovered

/-- A column gets another type and its values become required, and the two changes are given the
other way round. -/
theorem changelog_gathered_in_order_of_two_changes :
    let old := single [.plain "id" .string]
    let new := single [.scalar { name := "id", required := true } .int {}]
    Changelog.ofGraded (((old.compare new).changes.map (Change.grade {})).reverse) =
        old.changelog new {} ∧
      ∃ k ∈ (old.changelog new {}).groups, k.path = ["models", "orders", "fields", "id"] ∧
        k.Collects (old.changelog new {}) := by
  intro old new
  obtain ⟨forgets, ⟨_, paths⟩, collects, _⟩ := changelog_gathered_in_order old new {}
  have hchange : Change.modified ["models", "orders", "fields", "id"] .type
      (.field (.plain "id" .string)) (.field (.scalar { name := "id", required := true } .int {}))
        ∈ (old.compare new).changes := modified_mem_iff.2 ⟨rfl, rfl, by decide⟩
  have hcov : ¬ Change.IsCovered (old.compare new).changes (.modified
      ["models", "orders", "fields", "id"] .type (.field (.plain "id" .string))
        (.field (.scalar { name := "id", required := true } .int {}))) := by
    rintro ⟨h, _, hne, _, hkind, _⟩
    exact hne hkind
  obtain ⟨k, hk, hpath⟩ := List.mem_map.1 ((paths _).2 ⟨_, mem_changelog_iff.2
    ⟨_, hchange, hcov, rfl⟩, rfl⟩)
  exact ⟨forgets _ (List.reverse_perm _), k, hk, hpath, collects k hk⟩

end Contract

end ContractDrift
