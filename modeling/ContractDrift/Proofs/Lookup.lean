import ContractDrift.Ordered.Entries
import Mathlib.Data.List.Nodup
import Mathlib.Data.List.Perm.Basic

/-!
# Reading a map that was built from a list

`Entries.ofList` inserts the entries of a list one after another, so of several entries under one
key the last one stays.  Most of what is said about an index needs these consequences only:

* **`Entries.mem_of_get?_ofList`** — a value that is read was in the list, under its key.
* **`Entries.get?_ofList_eq_some_iff`** — if no key repeats, reading is membership;
  **`Entries.size_ofList`** — and the map is as large as the list.
* **`Entries.toList_ofList`** — a list in the order of its keys is kept as it is.
-/

namespace ContractDrift

universe u v

variable {κ : Type u} {α : Type v} [DecidableEq κ]

/-! ## Lists of entries -/

/-- What a look-up finds is in the list. -/
lemma mem_of_lookupEntry {k : κ} {a : α} :
    ∀ {l : List (κ × α)}, lookupEntry k l = some a → (k, a) ∈ l
  | [], h => by simp [lookupEntry] at h
  | (j, b) :: rest, h => by
      unfold lookupEntry at h
      split at h
      · rename_i hj
        obtain rfl : b = a := Option.some.inj h
        exact hj ▸ List.mem_cons_self
      · exact List.mem_cons_of_mem _ (mem_of_lookupEntry h)

/-- If no key repeats, what is in the list is what a look-up finds. -/
lemma lookupEntry_of_mem {k : κ} {a : α} :
    ∀ {l : List (κ × α)}, (l.map Prod.fst).Nodup → (k, a) ∈ l → lookupEntry k l = some a
  | (j, b) :: rest, hl, h => by
      rw [List.map_cons, List.nodup_cons] at hl
      unfold lookupEntry
      rcases List.mem_cons.1 h with h | h
      · obtain ⟨rfl, rfl⟩ := Prod.mk.inj h
        exact if_pos rfl
      · have hjk : j ≠ k := by
          rintro rfl
          exact hl.1 (List.mem_map.2 ⟨_, h, rfl⟩)
        rw [if_neg hjk]
        exact lookupEntry_of_mem hl.2 h

lemma lookupEntry_append {k : κ} : ∀ {l m : List (κ × α)},
    lookupEntry k (l ++ m) = (lookupEntry k l).or (lookupEntry k m)
  | [], m => rfl
  | (j, b) :: rest, m => by
      simp only [List.cons_append, lookupEntry]
      split
      · rfl
      · exact lookupEntry_append

namespace Entries

variable [LT κ]

@[simp] lemma get?_empty {k : κ} : (empty : Entries κ α).get? k = none := rfl

variable [DecidableLT κ] [LE κ] [Std.IsLinearOrder κ] [Std.LawfulOrderLT κ]

/-- The last entry under a key is the one that is read. -/
lemma get?_ofList {l : List (κ × α)} {k : κ} : (ofList l).get? k = lookupEntry k l.reverse := by
  have fold : ∀ (l : List (κ × α)) (m : Entries κ α),
      (l.foldl (fun m e => m.insert e.1 e.2) m).get? k
        = (lookupEntry k l.reverse).or (m.get? k) := by
    intro l
    induction l with
    | nil => intro m; rfl
    | cons e rest ih =>
        intro m
        rw [List.foldl_cons, ih, List.reverse_cons, lookupEntry_append, Option.or_assoc,
          get?_insert]
        congr 1
        simp only [lookupEntry]
        split <;> rfl
  rw [ofList, fold, get?_empty, Option.or_none]

/-- A value that is read was in the list. -/
theorem mem_of_get?_ofList {l : List (κ × α)} {k : κ} {a : α}
    (h : (ofList l).get? k = some a) : (k, a) ∈ l := by
  rw [get?_ofList] at h
  exact List.mem_reverse.1 (mem_of_lookupEntry h)

/-- **If no key repeats, reading is membership.** -/
theorem get?_ofList_eq_some_iff {l : List (κ × α)} (hl : (l.map Prod.fst).Nodup) {k : κ} {a : α} :
    (ofList l).get? k = some a ↔ (k, a) ∈ l := by
  refine ⟨mem_of_get?_ofList, fun h => ?_⟩
  rw [get?_ofList]
  refine lookupEntry_of_mem ?_ (List.mem_reverse.2 h)
  rw [List.map_reverse]
  exact List.nodup_reverse.2 hl

omit [DecidableEq κ] [Std.IsLinearOrder κ] in
/-- An entry with a key above all others comes last. -/
lemma insertEntry_of_lt {k : κ} {a : α} : ∀ {l : List (κ × α)}, (∀ j ∈ l.map Prod.fst, j < k) →
    insertEntry k a l = l ++ [(k, a)]
  | [], _ => rfl
  | (j, b) :: rest, h => by
      have hj : j < k := h j List.mem_cons_self
      rw [insertEntry, if_neg (Std.not_gt_of_lt hj), if_pos hj, insertEntry_of_lt fun i hi =>
        h i (List.mem_cons_of_mem _ hi), List.cons_append]

omit [DecidableEq κ] in
/-- **A list in the order of its keys is kept as it is.** -/
theorem toList_ofList {l : List (κ × α)} (hl : (l.map Prod.fst).Pairwise (· < ·)) :
    (ofList l).toList = l := by
  have fold : ∀ (l : List (κ × α)) (m : Entries κ α),
      ((m.toList ++ l).map Prod.fst).Pairwise (· < ·) →
        (l.foldl (fun m e => m.insert e.1 e.2) m).toList = m.toList ++ l := by
    intro l
    induction l with
    | nil => intro m _; exact (List.append_nil _).symm
    | cons e rest ih =>
        intro m hm
        have hinsert : (m.insert e.1 e.2).toList = m.toList ++ [e] := by
          refine insertEntry_of_lt fun j hj => ?_
          rw [List.map_append, List.map_cons] at hm
          exact (List.pairwise_append.1 hm).2.2 j hj e.1 List.mem_cons_self
        rw [List.foldl_cons, ih, hinsert, List.append_assoc, List.singleton_append]
        rwa [hinsert, List.append_assoc, List.singleton_append]
  exact fold l empty hl

/-- The keys of the map are those of the list. -/
lemma mem_keys_ofList {l : List (κ × α)} {k : κ} : k ∈ (ofList l).keys ↔ k ∈ l.map Prod.fst := by
  rw [mem_keys_iff, Option.isSome_iff_ne_none, get?_ofList, Ne, lookupEntry_eq_none_iff,
    Classical.not_not, List.map_reverse, List.mem_reverse]

/-- **If no key repeats, the map has as many entries as the list.** -/
theorem size_ofList {l : List (κ × α)} (hl : (l.map Prod.fst).Nodup) :
    (ofList l).size = l.length := by
  have distinct : ∀ {i j : κ}, i < j → i ≠ j := by
    rintro i j hlt rfl
    exact Std.lt_irrefl hlt
  have ascending : ((ofList l).toList.map Prod.fst).Nodup := (ofList l).ascending.imp distinct
  have hperm : ((ofList l).toList.map Prod.fst).Perm (l.map Prod.fst) :=
    (List.perm_ext_iff_of_nodup ascending hl).2 fun _ => mem_keys_ofList
  have hlength := hperm.length_eq
  rwa [List.length_map, List.length_map] at hlength

end Entries

end ContractDrift
