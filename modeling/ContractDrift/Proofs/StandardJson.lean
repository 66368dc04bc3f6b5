import ContractDrift.Json.Reader
import ContractDrift.Proofs.Lookup
import ContractDrift.Proofs.SameValue

/-!
# The numbers of JSON values

A number of a JSON value is an integer of 64 bits, with or without a sign, or a finite fraction.
The type `Json` has room for more: for integers of any size, for NaN and for the infinities.  A
value without these is *standard*.

* `Json.IsStandard` — all numbers in the value are numbers of JSON values.
* `Json.IsStandard.isFinite` — read as binary64 values, they are finite.
* **`Json.isStandard_of_read?`** — what is read from a text is standard.
-/

namespace ContractDrift

/-! ## Integers as binary64 values -/

namespace Binary64

/-- A number with fewer binary digits than the greatest finite value is rounded to a finite
value. -/
lemma isFinite_ofRatio {negative : Bool} {num den : Nat} (h : num.log2 < 1023) :
    (ofRatio negative num den).isFinite = true := by
  have bound : binaryExponent num den ≤ num.log2 := by
    simp only [binaryExponent]
    split <;> omega
  unfold ofRatio
  split
  · rfl
  · extract_lets exponent coefficient
    have hexponent : exponent ≤ 970 := by
      simp only [exponent, leastExponent]
      omega
    split
    rename_i hrounded
    split
    · rename_i hgreat
      split at hrounded <;> cases hrounded <;> simp only [greatestExponent] at hgreat <;> omega
    · rfl

/-- An integer of 64 bits has fewer binary digits than that. -/
lemma log2_natAbs_lt {n : Int} (h : Json.inIntegerRange n = true) : n.natAbs.log2 < 1023 := by
  rw [Json.inIntegerRange, Bool.and_eq_true] at h
  have least : -9223372036854775808 ≤ n := of_decide_eq_true h.1
  have greatest : n ≤ 18446744073709551615 := of_decide_eq_true h.2
  by_cases hn : n.natAbs = 0
  · simp [hn]
  · have small : n.natAbs.log2 < 65 := (Nat.log2_lt hn).2 (by omega)
    omega

lemma isFinite_ofInt {n : Int} (h : Json.inIntegerRange n = true) : (ofInt n).isFinite = true :=
  isFinite_ofRatio (log2_natAbs_lt h)

end Binary64

namespace Json

/-! ## Standard values -/

/-- All numbers in the value are integers of 64 bits or finite. -/
inductive IsStandard : Json → Prop
  | null : IsStandard .null
  | bool (b : Bool) : IsStandard (.bool b)
  | int {n : Int} (h : inIntegerRange n = true) : IsStandard (.int n)
  | real {x : Binary64} (h : x.isFinite = true) : IsStandard (.real x)
  | text (s : String) : IsStandard (.text s)
  | list {items : List Json} (h : ∀ v ∈ items, IsStandard v) : IsStandard (.list items)
  | object {entries : List (String × Json)} (h : ∀ e ∈ entries, IsStandard e.2) :
      IsStandard (.object entries)

@[simp] lemma isStandard_null : IsStandard .null := .null

@[simp] lemma isStandard_text {s : String} : (text s).IsStandard := .text s

@[simp] lemma isStandard_int_iff {n : Int} : (int n).IsStandard ↔ inIntegerRange n = true := by
  refine ⟨fun h => ?_, .int⟩
  cases h with
  | int h => exact h

@[simp] lemma isStandard_list_iff {items : List Json} :
    (list items).IsStandard ↔ ∀ v ∈ items, v.IsStandard := by
  refine ⟨fun h => ?_, .list⟩
  cases h with
  | list h => exact h

@[simp] lemma isStandard_object_iff {entries : List (String × Json)} :
    (object entries).IsStandard ↔ ∀ e ∈ entries, e.2.IsStandard := by
  refine ⟨fun h => ?_, .object⟩
  cases h with
  | object h => exact h

/-- The values in a standard object are standard. -/
lemma IsStandard.get? {v w : Json} {key : String} (hv : v.IsStandard)
    (hw : v.get? key = some w) : w.IsStandard := by
  cases v with
  | object entries => exact isStandard_object_iff.1 hv _ (mem_of_lookupEntry hw)
  | _ => cases hw

/-- The number of a standard value is finite. -/
lemma IsStandard.isFinite {v : Json} {x : Binary64} (hv : v.IsStandard) (hx : v.number? = some x) :
    x.isFinite = true := by
  cases hv with
  | int h =>
      cases hx
      exact Binary64.isFinite_ofInt h
  | real h =>
      cases hx
      exact h
  | _ => cases hx

/-! ## Reading a text -/

lemma isStandard_of_number {cs : List Char} {v : Json} (h : number cs = some v) :
    v.IsStandard := by
  simp only [number, Option.bind_eq_bind, Option.bind_eq_some_iff] at h
  obtain ⟨n, _, h⟩ := h
  split at h
  · cases h
  · split at h
    · rename_i hwhole
      cases h
      simp only [Bool.and_eq_true] at hwhole
      exact .int hwhole.1.2
    · split at h
      · rename_i hfinite
        cases h
        exact .real hfinite
      · cases h

/-- Keeping one entry for each key keeps the values standard. -/
lemma isStandard_ofList {entries : List (String × Json)} (h : ∀ e ∈ entries, e.2.IsStandard) :
    (object (Entries.ofList entries).toList).IsStandard := by
  refine .object fun e he => h e (Entries.mem_of_get?_ofList (a := e.2) ?_)
  exact lookupEntry_of_mem (nodup_of_ascending (Entries.ofList entries).ascending) he

mutual

/-- A value at the beginning of a text is standard. -/
theorem isStandard_of_readValue? : ∀ {fuel : ℕ} {cs rest : List Char} {v : Json},
    readValue? fuel cs = some (v, rest) → v.IsStandard
  | 0, _, _, _, h => by simp [readValue?] at h
  | fuel + 1, cs, rest, v, h => by
      rw [readValue?] at h
      split at h
      · cases h
        exact .null
      · cases h
        exact .bool true
      · cases h
        exact .bool false
      · simp only [Option.bind_eq_bind, Option.bind_eq_some_iff] at h
        obtain ⟨_, _, h⟩ := h
        cases h
        exact .text _
      · split at h
        · cases h
          exact .list (by simp)
        · simp only [Option.bind_eq_bind, Option.bind_eq_some_iff] at h
          obtain ⟨⟨items, _⟩, hitems, h⟩ := h
          cases h
          exact .list (isStandard_of_readItems? hitems)
      · split at h
        · cases h
          exact .object (by simp)
        · simp only [Option.bind_eq_bind, Option.bind_eq_some_iff] at h
          obtain ⟨⟨entries, _⟩, hentries, h⟩ := h
          cases h
          exact isStandard_ofList (isStandard_of_readEntries? hentries)
      · simp only [Option.bind_eq_bind, Option.bind_eq_some_iff] at h
        obtain ⟨_, hnumber, h⟩ := h
        cases h
        exact isStandard_of_number hnumber

theorem isStandard_of_readItems? : ∀ {fuel : ℕ} {cs rest : List Char} {items : List Json},
    readItems? fuel cs = some (items, rest) → ∀ v ∈ items, v.IsStandard
  | 0, _, _, _, h => by simp [readItems?] at h
  | fuel + 1, cs, rest, items, h => by
      simp only [readItems?, Option.bind_eq_bind, Option.bind_eq_some_iff] at h
      obtain ⟨⟨v, _⟩, hv, h⟩ := h
      have hv := isStandard_of_readValue? hv
      split at h
      · simp only [Option.bind_eq_some_iff] at h
        obtain ⟨⟨later, _⟩, hlater, h⟩ := h
        cases h
        exact List.forall_mem_cons.2 ⟨hv, isStandard_of_readItems? hlater⟩
      · cases h
        simpa using hv
      · cases h

theorem isStandard_of_readEntries? : ∀ {fuel : ℕ} {cs rest : List Char}
    {entries : List (String × Json)}, readEntries? fuel cs = some (entries, rest) →
      ∀ e ∈ entries, e.2.IsStandard
  | 0, _, _, _, h => by simp [readEntries?] at h
  | fuel + 1, cs, rest, entries, h => by
      rw [readEntries?] at h
      split at h
      · simp only [Option.bind_eq_bind, Option.bind_eq_some_iff] at h
        obtain ⟨⟨k, _⟩, _, h⟩ := h
        split at h
        · simp only [Option.bind_eq_some_iff] at h
          obtain ⟨⟨v, _⟩, hv, h⟩ := h
          have hv := isStandard_of_readValue? hv
          split at h
          · simp only [Option.bind_eq_some_iff] at h
            obtain ⟨⟨later, _⟩, hlater, h⟩ := h
            cases h
            exact List.forall_mem_cons.2 ⟨hv, isStandard_of_readEntries? hlater⟩
          · cases h
            simpa using hv
          · cases h
        · cases h
      · cases h

end

/-- **What is read from a text is standard.** -/
theorem isStandard_of_read? {s : String} {v : Json} (h : read? s = some v) : v.IsStandard := by
  simp only [read?] at h
  split at h
  · rename_i hvalue
    split at h
    · cases h
      exact isStandard_of_readValue? hvalue
    · cases h
  · cases h

end Json

end ContractDrift
