import ContractDrift.Comparison.Change
import ContractDrift.Proofs.Places

/-!
# The changes of a comparison, path by path

A comparison walks all paths of both indexes.  What it says about one path depends on the two parts
there and on nothing else, so membership in its list of changes is a statement about one path.

* `Comparison.mem_changes_between_iff` — a change is listed exactly if it is one of its own path.
* `Contract.added_mem_iff`, `Contract.removed_mem_iff`, `Contract.modified_mem_iff` — the same for
  each kind of change.
* **`Contract.exists_group_iff`** — a group of two parts is listed exactly if they differ in it.
* **`Contract.changes_eq_nil_iff`** — nothing changed exactly if no path has a change.
* **`Contract.sort_eq_of_modified`** — two parts at one path are of one sort.
-/

namespace ContractDrift

namespace Comparison

variable {i j : Index} {c : Change} {p : Path}

/-- The paths that a comparison walks are those of either index. -/
lemma mem_paths_iff : p ∈ (i.keys.union j.keys).toList ↔ (i.get? p).isSome ∨ (j.get? p).isSome := by
  change p ∈ i.keys.union j.keys ↔ _
  rw [Members.mem_union, Entries.mem_keys_iff, Entries.mem_keys_iff]

/-- A path with a change is one that the comparison walks. -/
lemma mem_paths_of_mem_changesAt (h : c ∈ changesAt p (i.get? p) (j.get? p)) :
    p ∈ (i.keys.union j.keys).toList := by
  rw [mem_paths_iff]
  cases hi : i.get? p with
  | some m => exact .inl rfl
  | none =>
      cases hj : j.get? p with
      | some n => exact .inr rfl
      | none => simp [hi, hj, changesAt] at h

theorem mem_changes_between_iff :
    c ∈ (between i j).changes ↔ c ∈ changesAt c.path (i.get? c.path) (j.get? c.path) := by
  simp only [between, List.mem_flatMap]
  constructor
  · rintro ⟨p, _, h⟩
    rwa [path_of_mem_changesAt h]
  · intro h
    exact ⟨c.path, mem_paths_of_mem_changesAt h, h⟩

end Comparison

namespace Contract

open Comparison (changesAt mem_changes_between_iff)

variable {a b : Contract} {p : Path}

lemma mem_changes_iff {c : Change} :
    c ∈ (a.compare b).changes ↔ c ∈ changesAt c.path (a.index.get? c.path) (b.index.get? c.path) :=
  mem_changes_between_iff

theorem added_mem_iff {n : Node} : Change.added p n ∈ (a.compare b).changes ↔
    a.index.get? p = none ∧ b.index.get? p = some n := by
  rw [mem_changes_iff, Change.path]
  cases a.index.get? p <;> cases b.index.get? p <;> simp [changesAt, eq_comm]

theorem removed_mem_iff {n : Node} : Change.removed p n ∈ (a.compare b).changes ↔
    a.index.get? p = some n ∧ b.index.get? p = none := by
  rw [mem_changes_iff, Change.path]
  cases a.index.get? p <;> cases b.index.get? p <;> simp [changesAt, eq_comm]

theorem modified_mem_iff {g : Attribute} {m n : Node} :
    Change.modified p g m n ∈ (a.compare b).changes ↔
      a.index.get? p = some m ∧ b.index.get? p = some n ∧ g ∈ m.differences n := by
  rw [mem_changes_iff, Change.path]
  cases a.index.get? p <;> cases b.index.get? p
  · simp [changesAt]
  · simp [changesAt]
  · simp [changesAt]
  · simp only [changesAt, List.mem_map, Change.modified.injEq, Option.some.injEq]
    constructor
    · rintro ⟨_, hg, _, rfl, rfl, rfl⟩
      exact ⟨rfl, rfl, hg⟩
    · rintro ⟨rfl, rfl, hg⟩
      exact ⟨g, hg, trivial, rfl, rfl, rfl⟩

section Groups

variable {g : Attribute} {m n : Node} (hm : a.index.get? p = some m) (hn : b.index.get? p = some n)

include hm hn

/-- A path with a part in both versions has one change of a group at most. -/
lemma eq_modified_of_group {c : Change} (hc : c ∈ (a.compare b).changes) (hp : c.path = p)
    (hgroup : c.group? = some g) : c = .modified p g m n ∧ g ∈ m.differences n := by
  subst hp
  cases c with
  | added | removed => cases hgroup
  | modified q h k l =>
      obtain ⟨hk, hl, hdiffer⟩ := modified_mem_iff.1 hc
      obtain rfl := Option.some.inj hgroup
      obtain rfl := Option.some.inj (hk.symm.trans hm)
      obtain rfl := Option.some.inj (hl.symm.trans hn)
      exact ⟨rfl, hdiffer⟩

/-- **A group is listed exactly if the parts differ in it.** -/
theorem exists_group_iff :
    (∃ c ∈ (a.compare b).changes, c.path = p ∧ c.group? = some g) ↔ g ∈ m.differences n := by
  constructor
  · rintro ⟨c, hc, hp, hgroup⟩
    exact (eq_modified_of_group hm hn hc hp hgroup).2
  · intro h
    exact ⟨_, modified_mem_iff.2 ⟨hm, hn, h⟩, rfl, rfl⟩

end Groups

/-- **Nothing changed exactly if no path has a change.** -/
theorem changes_eq_nil_iff : (a.compare b).changes = [] ↔
    ∀ p, changesAt p (a.index.get? p) (b.index.get? p) = [] := by
  constructor
  · intro h p
    refine List.eq_nil_iff_forall_not_mem.2 fun c hc => ?_
    have hp := Comparison.path_of_mem_changesAt hc
    have : c ∈ (a.compare b).changes := mem_changes_iff.2 (hp ▸ hc)
    rw [h] at this
    exact absurd this List.not_mem_nil
  · intro h
    refine List.eq_nil_iff_forall_not_mem.2 fun c hc => ?_
    rw [mem_changes_iff, h] at hc
    exact absurd hc List.not_mem_nil

/-- **Two parts at one path are of one sort**, also if names repeat. -/
theorem sort_eq_of_modified {m n : Node} (hm : a.index.get? p = some m)
    (hn : b.index.get? p = some n) : m.sort = n.sort :=
  Option.some.inj ((sort?_of_get?_index hm).symm.trans (sort?_of_get?_index hn))

end Contract

end ContractDrift
