import ContractDrift.Json.Basic
import ContractDrift.Proofs.Lookup
import Mathlib.Data.List.Forall2
import Mathlib.Data.List.Perm.Subperm

/-!
# Equality of free values

`Json.same` walks two values side by side.  What is needed of it wherever changes are weighed
against each other:

* **`Json.same_comm`** — it does not matter which of the two values is the old one.
* **`Json.sameEntries_iff_included`** — for objects, whose keys ascend, going side by side is the
  same as asking that there are equally many entries and that each entry of the one is found, with
  an equal value, in the other.  That this one-sided question is enough is a pigeonhole argument.
* `Parameters.same_iff` — so parameters are equal if they are under each name.
-/

namespace ContractDrift

namespace Binary64

/-- Comparing the other way round turns the answer round. -/
theorem order_swap (a b : Binary64) : a.order b = (b.order a).map Ordering.swap := by
  cases a with
  | nan => simp
  | infinite s =>
      cases b with
      | nan => simp
      | infinite t => cases s <;> cases t <;> rfl
      | finite t d f => cases s <;> rfl
  | finite s c e =>
      cases b with
      | nan => simp
      | infinite t => cases t <;> rfl
      | finite t d f =>
          simp only [order, Option.map_some, Option.some.injEq]
          rw [Int.min_comm]
          exact Std.OrientedCmp.eq_swap

theorem same_comm (a b : Binary64) : a.same b = b.same a := by
  rw [same, order_swap, same]
  cases b.order a with
  | none => rfl
  | some o => cases o <;> rfl

end Binary64

namespace Json

mutual

/-- **Equality of free values is symmetric.** -/
theorem same_comm : ∀ v w : Json, v.same w = w.same v
  | .null, w => by cases w <;> rfl
  | .bool a, w => by cases w <;> first | rfl | exact Bool.beq_comm
  | .int a, w => by cases w <;> first | rfl | exact Binary64.same_comm _ _
  | .real x, w => by cases w <;> first | rfl | exact Binary64.same_comm _ _
  | .text a, w => by cases w <;> first | rfl | exact BEq.comm
  | .list a, w => by cases w <;> first | rfl | exact sameList_comm _ _
  | .object a, w => by cases w <;> first | rfl | exact sameEntries_comm _ _

theorem sameList_comm : ∀ a b : List Json, sameList a b = sameList b a
  | [], b => by cases b <;> rfl
  | v :: a, [] => rfl
  | v :: a, w :: b => by rw [sameList, sameList, same_comm v w, sameList_comm a b]

theorem sameEntries_comm : ∀ a b : List (String × Json), sameEntries a b = sameEntries b a
  | [], b => by cases b <;> rfl
  | (k, v) :: a, [] => rfl
  | (k, v) :: a, (l, w) :: b => by
      rw [sameEntries, sameEntries, same_comm v w, sameEntries_comm a b, BEq.comm]

end

theorem sameOptional_comm (v w : Option Json) : sameOptional v w = sameOptional w v := by
  cases v <;> cases w <;> first | rfl | exact same_comm _ _

/-- Entries are equal place by place, keys and values. -/
lemma sameEntries_iff_forall₂ : ∀ {a b : List (String × Json)},
    sameEntries a b = true ↔ List.Forall₂ (fun x y => x.1 = y.1 ∧ same x.2 y.2 = true) a b
  | [], [] => by simp [sameEntries]
  | [], _ :: _ => by simp [sameEntries]
  | _ :: _, [] => by simp [sameEntries]
  | (k, v) :: a, (l, w) :: b => by
      rw [sameEntries, List.forall₂_cons, ← sameEntries_iff_forall₂]
      simp only [Bool.and_eq_true, beq_iff_eq]

/-- Lists of entries with the same keys are equal if the values under each key are. -/
lemma sameEntries_of_lookup : ∀ {a b : List (String × Json)}, a.map Prod.fst = b.map Prod.fst →
    (b.map Prod.fst).Nodup →
    (∀ k v, (k, v) ∈ a → ∃ w, lookupEntry k b = some w ∧ same v w = true) →
    sameEntries a b = true
  | [], [], _, _, _ => rfl
  | (k, v) :: a, (l, w) :: b, keys, nodup, found => by
      obtain ⟨hkl, tails⟩ := List.cons.inj keys
      obtain rfl : k = l := hkl
      rw [List.map_cons, List.nodup_cons] at nodup
      obtain ⟨w', hw', hvw⟩ := found k v List.mem_cons_self
      rw [lookupEntry, if_pos rfl] at hw'
      obtain rfl := Option.some.inj hw'
      have rest : sameEntries a b = true := by
        refine sameEntries_of_lookup tails nodup.2 fun j u hj => ?_
        obtain ⟨w', hw', huw⟩ := found j u (List.mem_cons_of_mem _ hj)
        have hne : k ≠ j := by
          rintro rfl
          exact nodup.1 (tails ▸ List.mem_map.2 ⟨(k, u), hj, rfl⟩)
        rw [lookupEntry, if_neg hne] at hw'
        exact ⟨w', hw', huw⟩
      simp [sameEntries, hvw, rest]

lemma nodup_of_ascending {l : List String} (h : l.Pairwise (· < ·)) : l.Nodup := by
  refine h.imp ?_
  rintro k _ hlt rfl
  exact Std.lt_irrefl hlt

/-- **Inclusion and equal size are enough.**  Of two lists of ascending keys the one that contains
all keys of the other and has no more of them has the same keys. -/
theorem sameEntries_iff_included {a b : List (String × Json)}
    (ha : (a.map Prod.fst).Pairwise (· < ·)) (hb : (b.map Prod.fst).Pairwise (· < ·)) :
    sameEntries a b = true ↔ a.length = b.length ∧
      ∀ k v, (k, v) ∈ a → ∃ w, lookupEntry k b = some w ∧ same v w = true := by
  have nodup := nodup_of_ascending hb
  constructor
  · intro h
    have h := sameEntries_iff_forall₂.1 h
    refine ⟨h.length_eq, fun k v hkv => ?_⟩
    obtain ⟨i, hi, hav⟩ := List.getElem_of_mem hkv
    have hib : i < b.length := h.length_eq ▸ hi
    have hrel := (List.forall₂_iff_get.1 h).2 i hi hib
    simp only [List.get_eq_getElem, hav] at hrel
    refine ⟨b[i].2, lookupEntry_of_mem nodup ?_, hrel.2⟩
    rw [hrel.1]
    exact List.getElem_mem hib
  · rintro ⟨hlen, found⟩
    have hsub : a.map Prod.fst ⊆ b.map Prod.fst := by
      intro k hk
      obtain ⟨⟨k, v⟩, hkv, rfl⟩ := List.mem_map.1 hk
      obtain ⟨w, hw, _⟩ := found k v hkv
      exact List.mem_map.2 ⟨_, mem_of_lookupEntry hw, rfl⟩
    have hperm : (a.map Prod.fst).Perm (b.map Prod.fst) := by
      refine (List.subperm_of_subset (nodup_of_ascending ha) hsub).perm_of_length_le ?_
      simp [hlen]
    have keys : a.map Prod.fst = b.map Prod.fst :=
      eq_of_pairwise_of_mem_iff ha hb fun k => hperm.mem_iff
    exact sameEntries_of_lookup keys nodup found

/-- Objects are equal if under each key both have equal values or none. -/
theorem sameEntries_iff_lookup {a b : List (String × Json)}
    (ha : (a.map Prod.fst).Pairwise (· < ·)) (hb : (b.map Prod.fst).Pairwise (· < ·)) :
    sameEntries a b = true ↔
      ∀ k, sameOptional (lookupEntry k a) (lookupEntry k b) = true := by
  constructor
  · intro h k
    obtain ⟨_, right⟩ := (sameEntries_iff_included ha hb).1 h
    obtain ⟨_, left⟩ := (sameEntries_iff_included hb ha).1 (sameEntries_comm a b ▸ h)
    cases hv : lookupEntry k a with
    | some v =>
        obtain ⟨w, hw, hvw⟩ := right k v (mem_of_lookupEntry hv)
        rwa [hw]
    | none =>
        cases hw : lookupEntry k b with
        | none => rfl
        | some w =>
            obtain ⟨v, hv', _⟩ := left k w (mem_of_lookupEntry hw)
            exact absurd (hv.symm.trans hv') (by simp)
  · intro h
    have mem : ∀ {l : List (String × Json)} {k}, k ∈ l.map Prod.fst ↔ lookupEntry k l ≠ none :=
      fun {l k} => by rw [Ne, lookupEntry_eq_none_iff, Classical.not_not]
    have keys : a.map Prod.fst = b.map Prod.fst := by
      refine eq_of_pairwise_of_mem_iff ha hb fun k => ?_
      rw [mem, mem]
      have hk := h k
      cases hv : lookupEntry k a <;> cases hw : lookupEntry k b <;> simp_all [sameOptional]
    refine (sameEntries_iff_included ha hb).2 ⟨by simpa using congrArg List.length keys, ?_⟩
    intro k v hv
    have hk := h k
    rw [lookupEntry_of_mem (nodup_of_ascending ha) hv] at hk
    cases hw : lookupEntry k b with
    | none => simp [hw, sameOptional] at hk
    | some w => exact ⟨w, rfl, by rwa [hw] at hk⟩

end Json

/-- **Parameters are equal** if under each name both have equal values or none. -/
theorem Parameters.same_iff {a b : Parameters} :
    Parameters.same a b = true ↔ ∀ k, Json.sameOptional (a.get? k) (b.get? k) = true :=
  Json.sameEntries_iff_lookup a.ascending b.ascending

theorem Parameters.same_comm (a b : Parameters) : Parameters.same a b = Parameters.same b a :=
  Json.sameEntries_comm _ _

end ContractDrift
