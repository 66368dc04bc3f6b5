/-!
# Finite sets as ascending lists

A set of names or paths is kept as the strictly ascending list of its members, so that two sets
are equal exactly when they have the same members and every answer that lists a set lists it in
order.

* `Members` — the set; its invariant is a field.
* `Members.insert`, `Members.ofList`, `Members.union` — building sets.
* `Members.mem_insert`, `Members.mem_ofList`, `Members.mem_union` — what they contain.
* `Members.ext_mem` — membership determines the set.
-/

namespace ContractDrift

universe u

/-- Put `a` into an ascending list, once. -/
def insertAscending {α : Type u} [LT α] [DecidableLT α] (a : α) : List α → List α
  | [] => [a]
  | b :: rest =>
    if a < b then a :: b :: rest
    else if b < a then b :: insertAscending a rest
    else b :: rest

/-- A finite set: its members in strictly ascending order. -/
structure Members (α : Type u) [LT α] where
  /-- The members, each once, in ascending order. -/
  toList : List α
  /-- Each member is below the ones after it. -/
  ascending : toList.Pairwise (· < ·) := by simp

section Order

variable {α : Type u} [LT α] [LE α] [Std.IsLinearOrder α] [Std.LawfulOrderLT α]

theorem mem_insertAscending [DecidableLT α] {a c : α} :
    ∀ {l : List α}, c ∈ insertAscending a l ↔ c = a ∨ c ∈ l
  | [] => by simp [insertAscending]
  | b :: rest => by
    unfold insertAscending
    split
    · simp
    · split
      · have ih : c ∈ insertAscending a rest ↔ c = a ∨ c ∈ rest := mem_insertAscending
        simp only [List.mem_cons, ih]
        constructor
        · rintro (h | h | h) <;> simp [h]
        · rintro (h | h | h) <;> simp [h]
      · rename_i h₁ h₂
        have hab : a = b := by
          rcases Std.lt_trichotomy a b with h | h | h
          · exact absurd h h₁
          · exact h
          · exact absurd h h₂
        subst hab
        simp

theorem pairwise_insertAscending [DecidableLT α] {a : α} :
    ∀ {l : List α}, l.Pairwise (· < ·) → (insertAscending a l).Pairwise (· < ·)
  | [], _ => by simp [insertAscending]
  | b :: rest, h => by
    have hb := (List.pairwise_cons.1 h).1
    have hrest := (List.pairwise_cons.1 h).2
    unfold insertAscending
    split
    · rename_i hab
      refine List.pairwise_cons.2 ⟨fun c hc => ?_, h⟩
      rcases List.mem_cons.1 hc with rfl | hc
      · exact hab
      · exact Std.lt_trans hab (hb c hc)
    · split
      · rename_i hba
        refine List.pairwise_cons.2 ⟨fun c hc => ?_, pairwise_insertAscending hrest⟩
        rcases mem_insertAscending.1 hc with rfl | hc
        · exact hba
        · exact hb c hc
      · exact h

/-- An ascending list is determined by its members. -/
theorem eq_of_pairwise_of_mem_iff : ∀ {l m : List α}, l.Pairwise (· < ·) → m.Pairwise (· < ·) →
    (∀ c, c ∈ l ↔ c ∈ m) → l = m
  | [], [], _, _, _ => rfl
  | [], b :: _, _, _, h => absurd ((h b).2 (by simp)) (by simp)
  | a :: _, [], _, _, h => absurd ((h a).1 (by simp)) (by simp)
  | a :: l, b :: m, hl, hm, h => by
    have hl' := List.pairwise_cons.1 hl
    have hm' := List.pairwise_cons.1 hm
    have hab : a = b := by
      rcases List.mem_cons.1 ((h a).1 (by simp)) with e | ha
      · exact e
      · rcases List.mem_cons.1 ((h b).2 (by simp)) with e | hb
        · exact e.symm
        · exact absurd (Std.lt_trans (hm'.1 a ha) (hl'.1 b hb)) Std.lt_irrefl
    subst hab
    congr 1
    refine eq_of_pairwise_of_mem_iff hl'.2 hm'.2 fun c => ⟨fun hc => ?_, fun hc => ?_⟩
    · rcases List.mem_cons.1 ((h c).1 (List.mem_cons_of_mem _ hc)) with rfl | h'
      · exact absurd (hl'.1 c hc) Std.lt_irrefl
      · exact h'
    · rcases List.mem_cons.1 ((h c).2 (List.mem_cons_of_mem _ hc)) with rfl | h'
      · exact absurd (hm'.1 c hc) Std.lt_irrefl
      · exact h'

end Order

namespace Members

variable {α : Type u} [LT α]

instance : Membership α (Members α) where
  mem s a := a ∈ s.toList

instance : Inhabited (Members α) := ⟨{ toList := [] }⟩

instance [DecidableEq α] : DecidableEq (Members α) := fun s t =>
  if h : s.toList = t.toList then
    .isTrue (by cases s; cases t; simp_all)
  else
    .isFalse fun e => h (e ▸ rfl)

/-- The set without members. -/
def empty : Members α := { toList := [] }

/-- Whether the set has no member. -/
def isEmpty (s : Members α) : Bool := s.toList.isEmpty

/-- Whether every member of `s` is one of `t`. -/
def isSubset [DecidableEq α] (s t : Members α) : Bool := s.toList.all fun a => t.toList.contains a

variable [LE α] [Std.IsLinearOrder α] [Std.LawfulOrderLT α]

/-- Sets with the same members are equal. -/
theorem ext_mem {s t : Members α} (h : ∀ c, c ∈ s ↔ c ∈ t) : s = t := by
  have : s.toList = t.toList := eq_of_pairwise_of_mem_iff s.ascending t.ascending h
  cases s; cases t; simp_all

variable [DecidableLT α]

/-- The set with one more member. -/
def insert (a : α) (s : Members α) : Members α where
  toList := insertAscending a s.toList
  ascending := pairwise_insertAscending s.ascending

/-- The set of the elements of a list. -/
def ofList (l : List α) : Members α := l.foldr insert empty

/-- The members of either set. -/
def union (s t : Members α) : Members α := s.toList.foldr insert t

theorem mem_insert {a c : α} {s : Members α} : c ∈ s.insert a ↔ c = a ∨ c ∈ s :=
  mem_insertAscending

theorem mem_foldr_insert {c : α} {t : Members α} :
    ∀ {l : List α}, c ∈ l.foldr insert t ↔ c ∈ l ∨ c ∈ t
  | [] => by simp
  | a :: l => by
    rw [List.foldr_cons, mem_insert, mem_foldr_insert, List.mem_cons, or_assoc]

theorem mem_ofList {c : α} {l : List α} : c ∈ ofList l ↔ c ∈ l := by
  have : ¬ c ∈ (empty : Members α) := List.not_mem_nil
  simp [ofList, mem_foldr_insert, this]

theorem mem_union {c : α} {s t : Members α} : c ∈ s.union t ↔ c ∈ s ∨ c ∈ t :=
  mem_foldr_insert

end Members

end ContractDrift
