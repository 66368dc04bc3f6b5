import ContractDrift.Json.Record
import ContractDrift.Proofs.Lookup
import ContractDrift.Proofs.StandardJson

/-!
# Reading back what was written

A part is read, and written again from what was read.  It *makes a round trip* if reading the new
text gives the same part: the text itself may change, since a reader takes many spellings and a
writer has one.  A record makes a round trip if its slots do, so what is needed is one law for each
sort of slot.  A slot that may be left out is written as it is read only if nothing but `null` is
written as `null`; so this belongs to the notion.

* `Json.RoundTrips` — a reader and a writer of one sort of part.
* `Json.roundTrips_real`, `Json.RoundTrips.list`, … — the round trips of values.
* `Json.get?_record_cons` — what is found in a record is what stands in its slots.
* **`Json.RoundTrips.required`**, **`Json.RoundTrips.optional`**, **`Json.RoundTrips.defaulted`**,
  **`Json.RoundTrips.defaulted_unless`** — the round trips of slots.
-/

namespace ContractDrift

/-! ## Maps and sets -/

/-- A map is the map of its entries. -/
lemma Entries.ofList_toList {α : Type} (m : Entries String α) : ofList m.toList = m := by
  have entries : (ofList m.toList).toList = m.toList := toList_ofList m.ascending
  have ext : ∀ {a b : Entries String α}, a.toList = b.toList → a = b := by
    rintro ⟨_, _⟩ ⟨_, _⟩ rfl
    rfl
  exact ext entries

/-- A set is the set of its members. -/
lemma Members.ofList_toList (s : Members String) : ofList s.toList = s :=
  ext_mem fun _ => mem_ofList

namespace Json

/-! ## Round trips -/

/-- What was read is read again from what is written of it, and nothing but `null` is written as
`null`. -/
structure RoundTrips {α : Type} (read : Json → Option α) (write : α → Json) : Prop where
  again : ∀ {v a}, v.IsStandard → read v = some a → read (write a) = some a
  ne_null : ∀ {v a}, v.IsStandard → read v = some a → v ≠ null → write a ≠ null

namespace RoundTrips

variable {α : Type} {read : Json → Option α} {write : α → Json}

/-- If all that can be written is read again, nothing more has to be said. -/
lemma of_forall (again : ∀ a, read (write a) = some a) (ne_null : ∀ a, write a ≠ null) :
    RoundTrips read write where
  again _ _ := again _
  ne_null _ _ _ := ne_null _

/-- Items make round trips one by one. -/
lemma mapM (h : RoundTrips read write) : ∀ {items : List Json} {l : List α},
    (∀ v ∈ items, v.IsStandard) → items.mapM read = some l → (l.map write).mapM read = some l
  | [], l, _, hl => by
      obtain rfl : [] = l := by simpa using hl
      rfl
  | v :: items, l, hitems, hl => by
      rw [List.forall_mem_cons] at hitems
      simp only [List.mapM_cons, Option.bind_eq_bind, Option.bind_eq_some_iff, Option.pure_def,
        Option.some.injEq] at hl
      obtain ⟨a, ha, rest, hrest, rfl⟩ := hl
      simp [h.again hitems.1 ha, h.mapM hitems.2 hrest]

lemma list (h : RoundTrips read write) :
    RoundTrips (asList? read) fun l => .list (l.map write) where
  ne_null _ _ _ := nofun
  again {v l} hv hl := by
    cases v with
    | list items => exact h.mapM (isStandard_list_iff.1 hv) hl
    | _ => cases hl

end RoundTrips

lemma roundTrips_text : RoundTrips asText? text := .of_forall (fun _ => rfl) fun _ => nofun

lemma asTexts?_texts (l : List String) : asTexts? (texts l) = some l := by
  change (l.map text).mapM asText? = some l
  induction l with
  | nil => rfl
  | cons s rest ih =>
      rw [List.map_cons, List.mapM_cons, ih]
      rfl

lemma roundTrips_texts : RoundTrips asTexts? texts := .of_forall asTexts?_texts fun _ => nofun

/-- A set is written in order, each member once. -/
lemma roundTrips_members : RoundTrips asMembers? fun s => texts s.toList := by
  refine .of_forall (fun s => ?_) fun _ => nofun
  rw [asMembers?, asTexts?_texts, Option.map_some, Members.ofList_toList]

lemma roundTrips_bool : RoundTrips asBool? bool := .of_forall (fun _ => rfl) fun _ => nofun

lemma roundTrips_count : RoundTrips asCount? ofNat where
  ne_null _ _ _ := nofun
  again {v n} _ hn := by
    cases v with
    | int i =>
        simp only [asCount?, Option.ite_none_right_eq_some, Option.some.injEq] at hn
        obtain ⟨⟨_, hlimit⟩, rfl⟩ := hn
        exact if_pos ⟨Int.natCast_nonneg _, hlimit⟩
    | _ => cases hn

lemma roundTrips_real : RoundTrips asReal? ofReal where
  ne_null hv hx _ := by simp [ofReal, hv.isFinite hx]
  again hv hx := by
    rw [ofReal, if_pos (hv.isFinite hx)]
    rfl

lemma roundTrips_parameters : RoundTrips asParameters? ofParameters :=
  .of_forall (fun p => congrArg some p.ofList_toList) fun _ => nofun

/-- A free value is written as it was read, and so it is `null` only if it was. -/
lemma roundTrips_any : RoundTrips asAny? id where
  ne_null _ h hne := Option.some.inj h ▸ hne
  again _ _ := rfl

/-! ## Slots of a record -/

section Record

variable {key k : String} {slots : List (List (String × Json))}

lemma get?_record : (record slots).get? key = lookupEntry key slots.flatten.reverse :=
  Entries.get?_ofList

@[simp] lemma get?_record_nil : (record []).get? key = none := rfl

/-- Later slots are asked first. -/
@[simp] lemma get?_record_cons {s : List (String × Json)} :
    (record (s :: slots)).get? key = ((record slots).get? key).or (lookupEntry key s.reverse) := by
  simp only [get?_record, List.flatten_cons, List.reverse_append, lookupEntry_append]

@[simp] lemma lookupEntry_slot {v : Json} :
    lookupEntry key (slot k v).reverse = if k = key then some v else none := rfl

@[simp] lemma lookupEntry_slotOf {α : Type} {write : α → Json} {o : Option α} :
    lookupEntry key (slotOf k write o).reverse = if k = key then o.map write else none := by
  cases o with
  | none => simp [slotOf, lookupEntry]
  | some a => rfl

@[simp] lemma lookupEntry_slotUnless {omitted : Bool} {v : Json} :
    lookupEntry key (slotUnless k omitted v).reverse
      = if k = key then (if omitted then none else some v) else none := by
  cases omitted with
  | true => simp [slotUnless, lookupEntry]
  | false => rfl

end Record

/-- A record of standard values is standard as an object. -/
lemma IsStandard.asRecord? {v w : Json} {slots : List String} {mandatory : ℕ} (hv : v.IsStandard)
    (hw : v.asRecord? slots mandatory = some w) : w.IsStandard := by
  cases v with
  | object entries =>
      cases hw
      exact hv
  | list values =>
      simp only [Json.asRecord?, Option.ite_none_right_eq_some, Option.some.injEq] at hw
      obtain ⟨_, rfl⟩ := hw
      exact .object fun e he => isStandard_list_iff.1 hv e.2 (List.of_mem_zip he).2
  | _ => cases hw

namespace RoundTrips

variable {α : Type} {read : Json → Option α} {write : α → Json} {key : String} {v w : Json}

/-- A value in a slot that may be left out or `null` is read from a value that is neither. -/
lemma exists_of_optional {a : α} (ha : v.optional key read = some (some a)) :
    ∃ u, v.get? key = some u ∧ u ≠ null ∧ read u = some a := by
  unfold Json.optional at ha
  split at ha
  · cases ha
  · cases ha
  · rename_i u hne hu
    exact ⟨u, hu, by simpa using hne, by simpa using ha⟩

/-- A slot that has to be there. -/
lemma required {a : α} (h : RoundTrips read write) (hv : v.IsStandard)
    (ha : v.required key read = some a) (hw : w.get? key = some (write a)) :
    w.required key read = some a := by
  obtain ⟨u, hu, ha⟩ := Option.bind_eq_some_iff.1 ha
  simp [Json.required, hw, h.again (hv.get? hu) ha]

/-- A slot that may be left out or `null`. -/
lemma optional {o : Option α} (h : RoundTrips read write) (hv : v.IsStandard)
    (ho : v.optional key read = some o) (hw : w.get? key = o.map write) :
    w.optional key read = some o := by
  cases o with
  | none => simp [Json.optional, hw]
  | some a =>
      obtain ⟨u, hu, hne, ha⟩ := exists_of_optional ho
      have again := h.again (hv.get? hu) ha
      -- without this the slot would be read as one that was left out
      have ne_null := h.ne_null (hv.get? hu) ha hne
      rw [Option.map_some] at hw
      simp [Json.optional, hw, again]

/-- A slot that stands for a default if it is left out, and is always written. -/
lemma defaulted {a default : α} (h : RoundTrips read write) (hv : v.IsStandard)
    (hread : read (write default) = some default)
    (ha : v.defaulted key default read = some a) (hw : w.get? key = some (write a)) :
    w.defaulted key default read = some a := by
  unfold Json.defaulted at ha ⊢
  rw [hw]
  split at ha
  · cases ha
    exact hread
  · rename_i u hu
    exact h.again (hv.get? hu) ha

/-- A slot that is left out if it holds the default. -/
lemma defaulted_unless {a default : α} {omitted : Bool} (h : RoundTrips read write)
    (hv : v.IsStandard) (homitted : omitted = true ↔ a = default)
    (ha : v.defaulted key default read = some a)
    (hw : w.get? key = if omitted then none else some (write a)) :
    w.defaulted key default read = some a := by
  unfold Json.defaulted at ha ⊢
  rw [hw]
  cases omitted with
  | true => exact congrArg some (homitted.1 rfl).symm
  | false =>
      split at ha
      · cases ha
        exact absurd (homitted.2 rfl) Bool.false_ne_true
      · rename_i u hu
        exact h.again (hv.get? hu) ha

end RoundTrips

end Json

end ContractDrift
