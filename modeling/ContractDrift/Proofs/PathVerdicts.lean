import ContractDrift.Proofs.Frame
import ContractDrift.Proofs.GroupOrder

/-!
# What becomes of each path

A comparison goes through the paths of both indexes, each once and in order.  What it lists at a
path depends on the two parts there only, so nothing is listed at a path but what was found when its
turn came, and no other path ever has a turn.  The indexes may be any two, also such as no contract
has.

* `Comparison.changesFor` — what is listed at a path, which is
  **`Comparison.changesFor_between`** what the two parts there give.
* `Comparison.Finds` — the four things that can become of a path, and how each of them shows.
* **`Comparison.accountsFor_between`** — exactly one of them becomes of each path.
-/

namespace ContractDrift

namespace Comparison

variable {c : Comparison} {i j : Index} {p : Path}

/-! ## What is listed at a path -/

/-- The changes that are listed at a path. -/
def changesFor (c : Comparison) (p : Path) : List Change := c.changes.filter (·.path = p)

lemma nodup_paths (i j : Index) : (i.keys.union j.keys).toList.Nodup := by
  refine (i.keys.union j.keys).ascending.imp ?_
  rintro p _ hlt rfl
  exact Std.lt_irrefl hlt

/-- **What is listed at a path is what the two parts there give.** -/
theorem changesFor_between (i j : Index) (p : Path) :
    (between i j).changesFor p = changesAt p (i.get? p) (j.get? p) := by
  rw [changesFor, filter_changes_between (P := fun q => decide (q = p)), List.filter_eq]
  by_cases hp : p ∈ (i.keys.union j.keys).toList
  · rw [List.count_eq_one_of_mem (nodup_paths i j) hp, List.replicate_one, List.flatMap_singleton]
  · -- a path without a turn is in neither index
    rw [List.count_eq_zero_of_not_mem hp, List.replicate_zero, List.flatMap_nil]
    rw [mem_paths_iff, not_or, Option.not_isSome_iff_eq_none, Option.not_isSome_iff_eq_none] at hp
    rw [hp.1, hp.2, changesAt]

lemma mem_unchanged_between_iff : p ∈ (between i j).unchanged ↔
    ∃ m n, i.get? p = some m ∧ j.get? p = some n ∧ m.differences n = [] := by
  rw [between, List.mem_filter, mem_paths_iff]
  cases i.get? p <;> cases j.get? p <;> simp [isUnchanged]

lemma nodup_unchanged_between (i j : Index) : (between i j).unchanged.Nodup :=
  (nodup_paths i j).filter _

/-! ## One verdict for each path -/

/-- What can become of a path. -/
inductive Verdict where
  | removed
  | added
  | unchanged
  | modified
  deriving DecidableEq, Repr

/-- What became of a path from one index to another, as a comparison shows it: one removal, one
addition, one mention as unchanged without a change, or modifications, of different groups. -/
inductive Finds (c : Comparison) (i j : Index) (p : Path) : Verdict → Prop
  | removed {m : Node} (old : i.get? p = some m) (new : j.get? p = none)
      (listed : c.changesFor p = [.removed p m]) (mentions : c.unchanged.count p = 0) :
      Finds c i j p .removed
  | added {n : Node} (old : i.get? p = none) (new : j.get? p = some n)
      (listed : c.changesFor p = [.added p n]) (mentions : c.unchanged.count p = 0) :
      Finds c i j p .added
  | unchanged {m n : Node} (old : i.get? p = some m) (new : j.get? p = some n)
      (listed : c.changesFor p = []) (mentions : c.unchanged.count p = 1) :
      Finds c i j p .unchanged
  | modified {m n : Node} {groups : List Attribute} (old : i.get? p = some m)
      (new : j.get? p = some n) (differ : groups ≠ []) (distinct : groups.Nodup)
      (listed : c.changesFor p = groups.map fun g => .modified p g m n)
      (mentions : c.unchanged.count p = 0) : Finds c i j p .modified

/-- At most one thing becomes of a path. -/
lemma Finds.unique {v w : Verdict} (hv : c.Finds i j p v) (hw : c.Finds i j p w) : v = w := by
  cases hv <;> cases hw <;> simp_all

/-- At least one thing becomes of a path in either index. -/
lemma exists_finds_between (hp : p ∈ i.keys.union j.keys) : ∃ v, (between i j).Finds i j p v := by
  have listed := changesFor_between i j p
  have unmentioned (h : ∀ m n, i.get? p = some m → j.get? p = some n → m.differences n ≠ []) :
      (between i j).unchanged.count p = 0 := by
    refine List.count_eq_zero_of_not_mem fun hmem => ?_
    obtain ⟨m, n, hm, hn, hsame⟩ := mem_unchanged_between_iff.1 hmem
    exact h m n hm hn hsame
  cases hi : i.get? p with
  | none =>
      cases hj : j.get? p with
      | none =>
          have := mem_paths_iff.1 hp
          simp [hi, hj] at this
      | some n =>
          rw [hi, hj] at listed
          exact ⟨.added, .added hi hj listed (unmentioned (by simp [hi]))⟩
  | some m =>
      cases hj : j.get? p with
      | none =>
          rw [hi, hj] at listed
          exact ⟨.removed, .removed hi hj listed (unmentioned (by simp [hj]))⟩
      | some n =>
          rw [hi, hj, changesAt] at listed
          by_cases hsame : m.differences n = []
          · rw [hsame, List.map_nil] at listed
            have mentioned := List.count_eq_one_of_mem (nodup_unchanged_between i j)
              (mem_unchanged_between_iff.2 ⟨m, n, hi, hj, hsame⟩)
            exact ⟨.unchanged, .unchanged hi hj listed mentioned⟩
          · refine ⟨.modified, .modified hi hj hsame (m.nodup_differences n) listed ?_⟩
            refine unmentioned fun m' n' hm hn => ?_
            cases hi.symm.trans hm
            cases hj.symm.trans hn
            exact hsame

/-! ## The whole comparison -/

/-- A comparison accounts for the paths of two indexes: exactly one thing became of each, there is
nothing about any other path, and all is in the order of paths. -/
structure AccountsFor (c : Comparison) (i j : Index) : Prop where
  verdict : ∀ p ∈ i.keys.union j.keys, ∃! v, c.Finds i j p v
  changes_mem : ∀ d ∈ c.changes, d.path ∈ i.keys.union j.keys
  unchanged_mem : ∀ p ∈ c.unchanged, p ∈ i.keys.union j.keys
  changes_ascending : c.changes.Pairwise fun d e => d.path ≤ e.path
  unchanged_ascending : c.unchanged.Pairwise (· < ·)

/-- The changes are in the order of their paths. -/
lemma pairwise_path_changes (i j : Index) :
    (between i j).changes.Pairwise fun d e => d.path ≤ e.path := by
  rw [between, List.pairwise_flatMap]
  constructor
  · intro p _
    refine List.pairwise_of_forall_mem_list fun d hd e he => ?_
    rw [path_of_mem_changesAt hd, path_of_mem_changesAt he]
    exact Std.le_refl p
  · refine (i.keys.union j.keys).ascending.imp fun hlt d hd e he => ?_
    rw [path_of_mem_changesAt hd, path_of_mem_changesAt he]
    exact Std.le_of_lt hlt

/-- **A comparison accounts for every path exactly once.**  For any two indexes, a path of either is
removed, added, unchanged or modified, and only one of these; there is no word about other paths,
and changes and unchanged paths are in order. -/
theorem accountsFor_between (i j : Index) : (between i j).AccountsFor i j where
  verdict p hp := by
    obtain ⟨v, hv⟩ := exists_finds_between hp
    exact ⟨v, hv, fun w hw => hw.unique hv⟩
  changes_mem _ hd := mem_paths_of_mem_changesAt (mem_changes_between_iff.1 hd)
  unchanged_mem _ hp := (List.mem_filter.1 hp).1
  changes_ascending := pairwise_path_changes i j
  unchanged_ascending := (i.keys.union j.keys).ascending.filter _

/-- A column goes, and another one gets a type and becomes required, which are two changes at one
path. -/
theorem accountsFor_between_of_two_columns :
    let old := (Contract.single [.plain "gone" .string, .plain "id" .string]).index
    let new := (Contract.single [.scalar { name := "id", required := true } .int {}]).index
    let column (name : String) : Path := ["models", "orders", "fields", name]
    (between old new).Finds old new (column "gone") .removed ∧
      (between old new).Finds old new (column "id") .modified ∧
      ((between old new).changesFor (column "id")).map Change.group? =
        [some .type, some .nullability] := by
  intro old new column
  obtain ⟨verdict, _⟩ := accountsFor_between old new
  have gone : old.get? (column "gone") = some (.field (.plain "gone" .string)) := by rfl
  have none_gone : new.get? (column "gone") = none := by rfl
  have id : old.get? (column "id") = some (.field (.plain "id" .string)) := by rfl
  have new_id : new.get? (column "id") =
      some (.field (.scalar { name := "id", required := true } .int {})) := by rfl
  have listed : ((between old new).changesFor (column "id")).map Change.group? =
      [some .type, some .nullability] := by
    rw [changesFor_between, id, new_id]
    rfl
  obtain ⟨v, hv, _⟩ := verdict (column "gone") (mem_paths_iff.2 (.inl (by rw [gone]; rfl)))
  obtain ⟨w, hw, _⟩ := verdict (column "id") (mem_paths_iff.2 (.inl (by rw [id]; rfl)))
  refine ⟨?_, ?_, listed⟩
  · cases hv with
    | removed hm hn listed mentions => exact .removed hm hn listed mentions
    | added hm => cases gone.symm.trans hm
    | unchanged _ hn | modified _ hn => cases none_gone.symm.trans hn
  · cases hw with
    | removed _ hn => cases new_id.symm.trans hn
    | added hm => cases id.symm.trans hm
    | unchanged _ _ none_listed =>
        rw [none_listed] at listed
        cases listed
    | modified hm hn differ distinct listed mentions =>
        exact .modified hm hn differ distinct listed mentions

end Comparison

end ContractDrift
