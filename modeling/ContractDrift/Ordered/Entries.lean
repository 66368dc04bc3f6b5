import ContractDrift.Ordered.Members

/-!
# Finite maps as ascending lists of entries

A map from names or paths is kept as the list of its entries in strictly ascending order of the
keys: reading the list is reading the map in order, and putting an entry under a key that is
already there replaces it.

* `Entries` — the map; its invariant is a field.
* `Entries.get?`, `Entries.insert`, `Entries.ofList`.
* `Entries.get?_insert` — reading after writing.
* `Entries.mem_keys_iff` — a key has a value exactly when it is listed.
-/

namespace ContractDrift

universe u v

/-- Put an entry into a list of entries that ascends in its keys, replacing the entry under the
same key. -/
def insertEntry {κ : Type u} {α : Type v} [LT κ] [DecidableLT κ] (k : κ) (a : α) :
    List (κ × α) → List (κ × α)
  | [] => [(k, a)]
  | (l, b) :: rest =>
    if k < l then (k, a) :: (l, b) :: rest
    else if l < k then (l, b) :: insertEntry k a rest
    else (k, a) :: rest

/-- The value of the first entry under a key. -/
def lookupEntry {κ : Type u} {α : Type v} [DecidableEq κ] (k : κ) : List (κ × α) → Option α
  | [] => none
  | (l, a) :: rest => if l = k then some a else lookupEntry k rest

/-- A finite map: its entries in strictly ascending order of their keys. -/
structure Entries (κ : Type u) (α : Type v) [LT κ] where
  /-- The entries, one for each key, keys ascending. -/
  toList : List (κ × α)
  /-- Each key is below the ones after it. -/
  ascending : (toList.map Prod.fst).Pairwise (· < ·) := by simp

section Order

variable {κ : Type u} {α : Type v}

theorem lookupEntry_eq_none_iff [DecidableEq κ] {k : κ} :
    ∀ {l : List (κ × α)}, lookupEntry k l = none ↔ k ∉ l.map Prod.fst
  | [] => by simp [lookupEntry]
  | (l, a) :: rest => by
    unfold lookupEntry
    split
    · rename_i h
      simp [h]
    · rename_i h
      rw [lookupEntry_eq_none_iff]
      simp [Ne.symm h]

variable [LT κ] [DecidableLT κ] [LE κ] [Std.IsLinearOrder κ] [Std.LawfulOrderLT κ]

theorem map_fst_insertEntry {k : κ} {a : α} :
    ∀ {l : List (κ × α)}, (insertEntry k a l).map Prod.fst = insertAscending k (l.map Prod.fst)
  | [] => rfl
  | (l, b) :: rest => by
    simp only [insertEntry, List.map_cons, insertAscending]
    split
    · rfl
    · split
      · simp [map_fst_insertEntry]
      · rename_i h₁ h₂
        have : k = l := by
          rcases Std.lt_trichotomy k l with h | h | h
          · exact absurd h h₁
          · exact h
          · exact absurd h h₂
        simp [this]

theorem lookupEntry_insertEntry [DecidableEq κ] {k j : κ} {a : α} : ∀ {l : List (κ × α)},
    lookupEntry j (insertEntry k a l) = if k = j then some a else lookupEntry j l
  | [] => by simp [insertEntry, lookupEntry]
  | (l, b) :: rest => by
    unfold insertEntry
    split
    · simp [lookupEntry]
    · split
      · rename_i h
        simp only [lookupEntry, lookupEntry_insertEntry]
        by_cases hl : l = j
        · have : k ≠ j := by
            rintro rfl
            exact absurd (hl ▸ h) Std.lt_irrefl
          simp [hl, this]
        · simp [hl]
      · rename_i h₁ h₂
        have : k = l := by
          rcases Std.lt_trichotomy k l with h | h | h
          · exact absurd h h₁
          · exact h
          · exact absurd h h₂
        subst this
        by_cases hk : k = j <;> simp [lookupEntry, hk]

end Order

namespace Entries

variable {κ : Type u} {α : Type v} [LT κ]

instance : Inhabited (Entries κ α) := ⟨{ toList := [] }⟩

/-- The map without entries. -/
def empty : Entries κ α := { toList := [] }

/-- Whether the map has no entry. -/
def isEmpty (m : Entries κ α) : Bool := m.toList.isEmpty

/-- The number of entries. -/
def size (m : Entries κ α) : Nat := m.toList.length

/-- The keys as a set. -/
def keys (m : Entries κ α) : Members κ where
  toList := m.toList.map Prod.fst
  ascending := m.ascending

/-- The value under a key. -/
def get? [DecidableEq κ] (m : Entries κ α) (k : κ) : Option α := lookupEntry k m.toList

/-- Whether there is a value under a key. -/
def contains [DecidableEq κ] (m : Entries κ α) (k : κ) : Bool := (m.get? k).isSome

/-- A key has a value exactly when it is listed. -/
theorem mem_keys_iff [DecidableEq κ] {m : Entries κ α} {k : κ} :
    k ∈ m.keys ↔ (m.get? k).isSome := by
  have : m.get? k = none ↔ k ∉ m.keys := lookupEntry_eq_none_iff
  rw [Option.isSome_iff_ne_none, Ne, this, Classical.not_not]

variable [DecidableLT κ] [LE κ] [Std.IsLinearOrder κ] [Std.LawfulOrderLT κ]

/-- The map with `a` under `k`. -/
def insert (m : Entries κ α) (k : κ) (a : α) : Entries κ α where
  toList := insertEntry k a m.toList
  ascending := by
    rw [map_fst_insertEntry]
    exact pairwise_insertAscending m.ascending

/-- The map of a list of entries; of several entries under one key the last one stays. -/
def ofList (l : List (κ × α)) : Entries κ α := l.foldl (fun m e => m.insert e.1 e.2) empty

theorem get?_insert [DecidableEq κ] {m : Entries κ α} {k j : κ} {a : α} :
    (m.insert k a).get? j = if k = j then some a else m.get? j :=
  lookupEntry_insertEntry

end Entries

end ContractDrift
